import ScreenForms.Import.PixelScreen
import ScreenForms.Proofs.RecordLines
import ScreenForms.Proofs.WrittenValues

/-!
# Properties that are read again

A property is written as its name, an equals sign and its value. With what name the line is read
depends on the written name alone (`propertyOf?_line`), and a word is read as it is written, so the
properties with fixed names are found again, each with its value (`property?_asRead`).
-/

namespace ScreenForms

open Text

namespace Record

/-! ## Names of properties -/

/-- Letters, digits, underscores and dots, with a letter or an underscore in front. -/
def isWord (key : String) : Bool :=
  match key.toList with
  | [] => false
  | c :: cs => isNameStart c && cs.all isNameChar

/-- A word starts with a letter or an underscore. Further on, digits and dots may stand in it too. -/
theorem isWord_iff_exists {key : String} : isWord key = true ↔
    ∃ c cs, key.toList = c :: cs ∧ isNameStart c = true ∧ ∀ d ∈ cs, isNameChar d = true := by
  unfold isWord
  rcases key.toList with _ | ⟨c, cs⟩ <;> simp

theorem isNameChar_of_mem_word {key : String} (h : isWord key = true) {c : Char}
    (hc : c ∈ key.toList) : isNameChar c = true := by
  obtain ⟨d, ds, hkey, hstart, hall⟩ := isWord_iff_exists.mp h
  rw [hkey] at hc
  rcases List.mem_cons.mp hc with rfl | hc
  · rw [isNameStart, Bool.or_eq_true] at hstart
    rw [isNameChar, isWordChar, Char.isAlphanum]
    rcases hstart with hstart | hstart <;> simp [hstart]
  · exact hall c hc

/-- The name with which a property of the given name is read, when it is read at all. -/
def readName? (key : String) : Option String :=
  (readProperty? (key.toList ++ [' ', '='])).map fun p => String.ofList p.1

/-- What stands behind the equals sign belongs to the value. -/
theorem readProperty?_append (key rest : List Char) :
    readProperty? (key ++ ' ' :: '=' :: rest) =
      (readProperty? (key ++ [' ', '='])).map fun p => (p.1, p.2 ++ rest) := by
  rcases key with _ | ⟨c, cs⟩
  · rfl
  · have hsplit : c :: cs ++ ' ' :: '=' :: rest = c :: (cs ++ [' ', '='] ++ rest) := by simp
    have hequals : '=' ∈ cs ++ [' ', '='] := by simp
    have hmem := mem_dropWhile isNameChar hequals (by decide)
    obtain ⟨htake, hdrop⟩ := span_append_of_mem isNameChar hequals (by decide) rest
    have hblanks := (span_append_of_mem isAsciiBlank hmem (by decide) rest).2
    rw [hsplit, List.cons_append, readProperty?, readProperty?, spanName?, spanName?]
    rcases hstart : isNameStart c with _ | _
    · rfl
    · simp only [if_true, Option.bind_eq_bind, Option.bind_some, htake, hdrop, hblanks]
      rcases hrest : ((cs ++ [' ', '=']).dropWhile isNameChar).dropWhile isAsciiBlank with
        _ | ⟨d, ds⟩
      · cases List.dropWhile_eq_nil_iff.mp hrest '=' hmem
      · by_cases hd : d = '='
        · obtain rfl := hd
          rfl
        · rw [List.cons_append]
          split
          · next heq => exact absurd (List.cons.inj heq).1 hd
          · split
            · next heq => exact absurd (List.cons.inj heq).1 hd
            · rfl

/-! ## Lines of properties -/

/-- A line with a property keeps its key and the sign, even where the value is blank. -/
theorem trim_line {key : String} {c : Char} (hhead : key.toList.head? = some c)
    (hblank : isBlank c = false) (value : String) :
    trim (key ++ " = " ++ value).toList =
      key.toList ++ ' ' :: '=' :: trimEnd (' ' :: value.toList) := by
  have htext : (key ++ " = " ++ value).toList =
      (key.toList ++ [' ']) ++ '=' :: ' ' :: value.toList := by
    rw [String.toList_append, String.toList_append, List.append_assoc, List.append_assoc]
    rfl
  rcases hchars : key.toList with _ | ⟨d, cs⟩
  · rw [hchars] at hhead
    cases hhead
  · obtain rfl : d = c := by simpa [hchars] using hhead
    rw [htext, hchars, List.cons_append, List.cons_append, trim_cons_of_neg hblank,
      trimEnd_append_of_mem List.mem_cons_self (by decide), trimEnd_cons_of_neg (by decide)]
    simp

/-- With what name a written property is read depends on its name alone. -/
theorem propertyOf?_line {key : String} (hkey : WrittenRecord.IsPlainKey key) (value : String) :
    (propertyOf? (key ++ " = " ++ value).toList).map Prod.fst = readName? key := by
  rcases hhead : key.toList.head? with _ | c
  · obtain rfl : key = "" := String.toList_injective (List.head?_eq_none_iff.mp hhead)
    have htext : ("" ++ " = " ++ value).toList = ' ' :: '=' :: ' ' :: value.toList := by
      rw [String.toList_append]
      rfl
    rw [propertyOf?, htext, trim_cons_of_pos (by decide), trim_cons_of_neg (by decide)]
    rfl
  · rw [propertyOf?, readName?, trim_line hhead (hkey.2 c hhead).1, readProperty?_append]
    cases readProperty? (key.toList ++ [' ', '=']) <;> rfl

theorem not_isBlank_of_isNameStart {c : Char} (h : isNameStart c = true) : isBlank c = false := by
  rcases Bool.or_eq_true_iff.mp h with hletter | hunderscore
  · exact not_isBlank_of_isAlphanum (by simp [Char.isAlphanum, hletter])
  · rw [eq_of_beq hunderscore]
    rfl

/-- A word may begin a line of the block of properties. -/
theorem isPlainKey_of_isWord {key : String} (h : isWord key = true) :
    WrittenRecord.IsPlainKey key := by
  refine ⟨fun hbreak => absurd (isNameChar_of_mem_word h hbreak) (by decide), fun c hc => ?_⟩
  obtain ⟨d, ds, hkey, hstart, -⟩ := isWord_iff_exists.mp h
  rw [hkey] at hc
  obtain rfl := Option.some.inj hc
  refine ⟨not_isBlank_of_isNameStart hstart, ?_⟩
  rintro rfl
  cases hstart

/-- A property whose name is a word is read as it is written. -/
theorem propertyOf?_word {key : String} (hkey : isWord key = true) (value : String) :
    propertyOf? (key ++ " = " ++ value).toList = some (key, Value.sniff value) := by
  rcases hchars : key.toList with _ | ⟨c, cs⟩
  · rw [isWord, hchars] at hkey
    cases hkey
  · rw [isWord, hchars, Bool.and_eq_true, List.all_eq_true] at hkey
    obtain ⟨hstart, hall⟩ := hkey
    have hhead : key.toList.head? = some c := by rw [hchars]; rfl
    have hread : readProperty? (key.toList ++ [' ', '=']) = some (key.toList, []) := by
      rw [hchars, List.cons_append, readProperty?, spanName?, if_pos hstart,
        List.takeWhile_append_of_pos hall, List.dropWhile_append_of_pos hall,
        show List.takeWhile isNameChar [' ', '='] = [] from rfl, List.append_nil]
      rfl
    have hvalue : Value.sniff (String.ofList (trimEnd (' ' :: value.toList))) =
        Value.sniff value := by
      refine Value.sniff_eq_of_trim_eq ?_
      rw [String.toList_ofList, trim_trimEnd, trim_cons_of_pos (by decide)]
    rw [propertyOf?, trim_line hhead (not_isBlank_of_isNameStart hstart), readProperty?_append,
      hread]
    simp [hvalue]

end Record

namespace WrittenRecord

open Record RecordWriter

variable {w : WrittenRecord} {name : String} {front rest : List (String × String)}

/-! ## Looking for a property -/

/-- Properties with other names, all of which are words. -/
def Skips (name : String) (ps : List (String × String)) : Prop :=
  ∀ p ∈ ps, isWord p.1 = true ∧ sameName p.1 name = false

@[simp] theorem skips_nil : Skips name [] := fun _ hp => absurd hp List.not_mem_nil

/-- Looking for a property goes on past every other key. -/
@[simp] theorem skips_cons {p : String × String} :
    Skips name (p :: rest) ↔ (isWord p.1 = true ∧ sameName p.1 name = false) ∧ Skips name rest :=
  List.forall_mem_cons

@[simp] theorem skips_append : Skips name (front ++ rest) ↔ Skips name front ∧ Skips name rest :=
  List.forall_mem_append

/-- A flag is passed over by its key, whether it is written or not. -/
theorem skips_flagProperty {key : String} (hkey : isWord key = true)
    (hne : sameName key name = false) (value written : Bool) :
    Skips name (flagProperty key value written) := by
  unfold flagProperty
  split
  · exact skips_cons.mpr ⟨⟨hkey, hne⟩, skips_nil⟩
  · exact skips_nil

theorem skips_optionalProperty {α : Type} {key : String} (hkey : isWord key = true)
    (hne : sameName key name = false) (write : α → String) (o : Option α) :
    Skips name (optionalProperty key write o) := by
  cases o with
  | none => exact skips_nil
  | some a => exact skips_cons.mpr ⟨⟨hkey, hne⟩, skips_nil⟩

/-- What is found is then found in the rest of the properties. -/
theorem find?_append_of_skips (hfront : Skips name front) (h : w.properties = front ++ rest) :
    w.asRead.properties.find? (fun p => sameName p.1 name) =
      (rest.filterMap fun p => propertyOf? (p.1 ++ " = " ++ p.2).toList).find?
        (fun p => sameName p.1 name) := by
  have hnone : (front.filterMap fun p => propertyOf? (p.1 ++ " = " ++ p.2).toList).find?
      (fun p => sameName p.1 name) = none := by
    rw [List.find?_eq_none]
    intro p hp
    obtain ⟨q, hq, hread⟩ := List.mem_filterMap.mp hp
    obtain ⟨hword, hne⟩ := hfront q hq
    rw [propertyOf?_word hword] at hread
    obtain rfl := Option.some.inj hread
    simp [hne]
  show (w.properties.filterMap _).find? _ = _
  rw [h, List.filterMap_append, List.find?_append, hnone, Option.none_or]

/-- A property is found behind properties with other names. -/
theorem property?_asRead (hfront : Skips name front) (hname : isWord name = true) {value : String}
    (h : w.properties = front ++ (name, value) :: rest) :
    w.asRead.property? name = some (Value.sniff value) := by
  rw [property?, find?_append_of_skips hfront h, List.filterMap_cons]
  simp only [propertyOf?_word hname]
  rw [List.find?_cons_of_pos (by simp [sameName])]
  rfl

/-- A property that every key passes over is absent. -/
theorem property?_asRead_eq_none (h : Skips name w.properties) :
    w.asRead.property? name = none := by
  rw [property?, find?_append_of_skips h (List.append_nil _).symm]
  rfl

section found

variable (hfront : Skips name front) (hname : isWord name = true)
include hfront hname

/-- A text comes back as it was written, without the quotes around it. -/
theorem text?_asRead {text : String}
    (h : w.properties = front ++ textProperty name text :: rest) :
    w.asRead.text? name = some text := by
  rw [Record.text?, property?_asRead hfront hname h, Value.sniff_toLegacy_text]
  rfl

/-- A truth value that is written only when it differs from what stands for it otherwise. -/
theorem flag?_asRead {value written : Bool} (hrest : Skips name rest)
    (h : w.properties = front ++ (flagProperty name value written ++ rest)) :
    (w.asRead.flag? name).getD (!written) = value := by
  unfold flagProperty at h
  split at h
  · next heq =>
    rw [Record.flag?, property?_asRead hfront hname h, Value.sniff_toLegacy_flag]
    rfl
  · next hne =>
    rw [Record.flag?, property?_asRead_eq_none (by rw [h]; exact skips_append.mpr ⟨hfront, hrest⟩)]
    revert hne
    cases value <;> cases written <;> decide

omit hfront hname in
/-- Truth values with distinct names are all found again. -/
theorem flags_asRead {written : Bool} {flags : List (String × Bool)}
    (hwords : ∀ f ∈ flags, isWord f.1 = true)
    (hdistinct : flags.Pairwise fun f g => sameName f.1 g.1 = false ∧ sameName g.1 f.1 = false)
    (hfront : ∀ f ∈ flags, Skips f.1 front)
    (h : w.properties = front ++ flags.flatMap fun f => flagProperty f.1 f.2 written) :
    ∀ f ∈ flags, (w.asRead.flag? f.1).getD (!written) = f.2 := by
  induction flags generalizing front with
  | nil => exact fun f hf => absurd hf List.not_mem_nil
  | cons g flags ih =>
    obtain ⟨hword, hwords⟩ := List.forall_mem_cons.mp hwords
    obtain ⟨hne, hdistinct⟩ := List.pairwise_cons.mp hdistinct
    obtain ⟨hskips, hfront⟩ := List.forall_mem_cons.mp hfront
    rw [List.flatMap_cons] at h
    refine List.forall_mem_cons.mpr ⟨flag?_asRead hskips hword ?_ h, ?_⟩
    · intro p hp
      obtain ⟨f, hf, hmem⟩ := List.mem_flatMap.mp hp
      exact skips_flagProperty (hwords f hf) (hne f hf).2 f.2 written p hmem
    · refine ih hwords hdistinct (fun f hf => skips_append.mpr ⟨hfront f hf, ?_⟩)
        (h.trans (List.append_assoc _ _ _).symm)
      exact skips_flagProperty hword (hne f hf).1 g.2 written

open Decimal in
/-- A whole number is read as a float that is nearest to itself. -/
theorem exists_number?_asRead {n : Int} (hn : Is32 n)
    (h : w.properties = front ++ (name, intText n) :: rest) :
    ∃ x, w.asRead.number? [name] = some x ∧ nearest x = n := by
  obtain ⟨x, hsniff, hnearest⟩ := Value.exists_sniff_intText hn
  refine ⟨x, ?_, hnearest⟩
  rw [Record.number?, List.findSome?_cons, property?_asRead hfront hname h, hsniff]
  rfl

open Decimal in
/-- A coordinate within 32 bits comes back, and the default is not used. -/
theorem coordinate_asRead {n : Int} (hn : Is32 n) (default : Int)
    (h : w.properties = front ++ (name, intText n) :: rest) :
    PixelScreen.Nesting.coordinate (w.asRead.number? [name]) default = n := by
  obtain ⟨x, hnumber, hnearest⟩ := exists_number?_asRead hfront hname hn h
  rw [hnumber]
  exact hnearest

end found

/-! ## Position and size -/

/-- The names of the properties for position and size. -/
def geometryNames : List String := ["Left", "Top", "Width", "Height"]

/-- The four numbers of a place and a size are passed over when another name is looked for. -/
theorem skips_geometry (hname : geometryNames.all (fun key => !sameName key name) = true)
    (place : Int × Int) (width height : Int) : Skips name (geometry place width height) := by
  intro p hp
  have hkey : p.1 ∈ geometryNames := List.mem_map_of_mem (f := Prod.fst) hp
  refine ⟨List.all_eq_true.mp (by decide : geometryNames.all isWord = true) p.1 hkey, ?_⟩
  simpa using List.all_eq_true.mp hname p.1 hkey

open Decimal PixelScreen.Nesting in
/-- Position and size are read as they are written. -/
theorem geometry_asRead {place : Int × Int} {width height : Int}
    (hfront : ∀ name ∈ geometryNames, Skips name front)
    (h : w.properties = front ++ (geometry place width height ++ rest)) (hx : Is32 place.1)
    (hy : Is32 place.2) (hwidth : Is32 width) (hheight : Is32 height) (default : Int) :
    coordinate (w.asRead.number? ["Left"]) default = place.1 ∧
      coordinate (w.asRead.number? ["Top"]) default = place.2 ∧
      coordinate (w.asRead.number? ["Width"]) default = width ∧
      coordinate (w.asRead.number? ["Height"]) default = height := by
  -- the properties in front of the one at a position of the geometry have other names
  have hskips : ∀ (n : Nat) {name : String}, name ∈ geometryNames →
      (geometryNames.take n).all (fun key => !sameName key name) = true →
        Skips name (front ++ (geometry place width height).take n) := by
    intro n name hname hall
    refine skips_append.mpr ⟨hfront name hname, fun p hp => ?_⟩
    have hkey : p.1 ∈ ((geometry place width height).take n).map Prod.fst :=
      List.mem_map_of_mem hp
    rw [List.map_take] at hkey
    refine ⟨List.all_eq_true.mp (by decide : geometryNames.all isWord = true) p.1
      (List.mem_of_mem_take hkey), ?_⟩
    simpa using List.all_eq_true.mp hall p.1 hkey
  have hsplit : ∀ n, w.properties = (front ++ (geometry place width height).take n) ++
      ((geometry place width height).drop n ++ rest) := by
    intro n
    rw [h, List.append_assoc, ← List.append_assoc ((geometry place width height).take n),
      List.take_append_drop]
  exact ⟨coordinate_asRead (hskips 0 (by decide) rfl) (by decide) hx default (hsplit 0),
    coordinate_asRead (hskips 1 (by decide) rfl) (by decide) hy default (hsplit 1),
    coordinate_asRead (hskips 2 (by decide) rfl) (by decide) hwidth default (hsplit 2),
    coordinate_asRead (hskips 3 (by decide) rfl) (by decide) hheight default (hsplit 3)⟩

end WrittenRecord

end ScreenForms
