import ScreenForms.Proofs.Folding
import ScreenForms.Program.Caption

/-!
# Mnemonics

A toolkit that takes the hotkey from an ampersand in the caption reads the caption from left to
right: a doubled ampersand stands for one, a single one marks the character behind it (`shown?`).
What comes out is the text itself, and the marked character is the one whose index the other
toolkits are given (`shown?_mnemonic`), since no ampersand is the hotkey and so the mark never gets
between the two halves of a doubled one.
-/

namespace ScreenForms.Caption

variable {key : Char}

/-- The characters that a caption shows, each with whether it is marked. An ampersand at the end
has nothing to mark. -/
def shown? : List Char → Option (List (Char × Bool))
  | [] => some []
  | ['&'] => none
  | '&' :: '&' :: cs => (shown? cs).map (('&', false) :: ·)
  | '&' :: c :: cs => (shown? cs).map ((c, true) :: ·)
  | c :: cs => (shown? cs).map ((c, false) :: ·)

/-- The characters of a text, the one at an index marked. -/
def markedAt (index : Option Nat) (cs : List Char) : List (Char × Bool) :=
  cs.mapIdx fun i c => (c, index == some i)

theorem map_fst_markedAt (index : Option Nat) (cs : List Char) :
    (markedAt index cs).map Prod.fst = cs := by
  rw [markedAt, List.mapIdx_eq_zipIdx_map, List.map_map]
  exact List.zipIdx_map_fst 0 cs

theorem getElem?_markedAt (index : Option Nat) (cs : List Char) (i : Nat) :
    (markedAt index cs)[i]? = cs[i]?.map fun c => (c, index == some i) :=
  List.getElem?_mapIdx

theorem markedAt_zero (c : Char) (cs : List Char) :
    markedAt (some 0) (c :: cs) = (c, true) :: markedAt none cs := by
  rw [markedAt, markedAt, List.mapIdx_cons]
  exact congrArg₂ _ rfl (congrArg (fun f => cs.mapIdx f) (funext fun i => by simp))

theorem markedAt_succ (index : Option Nat) (c : Char) (cs : List Char) :
    markedAt (index.map (· + 1)) (c :: cs) = (c, false) :: markedAt index cs := by
  rw [markedAt, markedAt, List.mapIdx_cons]
  refine congrArg₂ _ (by cases index <;> simp) ?_
  exact congrArg (fun f => cs.mapIdx f) (funext fun i => by cases index <;> simp)

/-! ## Captions without a mark -/

theorem doubled_cons_ampersand (cs : List Char) : doubled ('&' :: cs) = '&' :: '&' :: doubled cs :=
  rfl

theorem doubled_cons {c : Char} (h : c ≠ '&') (cs : List Char) :
    doubled (c :: cs) = c :: doubled cs := by
  rw [doubled, List.flatMap_cons, if_neg h]
  rfl

theorem shown?_cons {c : Char} (h : c ≠ '&') (cs : List Char) :
    shown? (c :: cs) = (shown? cs).map ((c, false) :: ·) := by
  rw [shown?.eq_5] <;> simp [h]

theorem shown?_mark {c : Char} (h : c ≠ '&') (cs : List Char) :
    shown? ('&' :: c :: cs) = (shown? cs).map ((c, true) :: ·) := by
  rw [shown?.eq_4]
  exact h

theorem shown?_doubled (cs : List Char) : shown? (doubled cs) = some (markedAt none cs) := by
  induction cs with
  | nil => rfl
  | cons c cs ih =>
    rw [← Option.map_none (· + 1), markedAt_succ]
    by_cases hc : c = '&'
    · rw [hc, doubled_cons_ampersand, shown?, ih, Option.map_some]
    · rw [doubled_cons hc, shown?_cons hc, ih, Option.map_some]

/-! ## The mark -/

theorem not_sameKey_ampersand (h : key ≠ '&') : sameKey key '&' = false := by
  rw [Bool.eq_false_iff]
  exact fun hsame => h (Text.eq_of_toLower_eq (eq_of_beq hsame) (by decide))

/-- The mark stands before the character that equals the key first. -/
theorem shown?_markFirst_doubled (h : key ≠ '&') (cs : List Char) :
    shown? (markFirst key (doubled cs)) = some (markedAt (cs.findIdx? (sameKey key)) cs) := by
  induction cs with
  | nil => rfl
  | cons c cs ih =>
    have hpass := not_sameKey_ampersand h
    rw [List.findIdx?_cons]
    by_cases hc : c = '&'
    · subst hc
      rw [hpass, if_neg (by decide), markedAt_succ, doubled_cons_ampersand, markFirst, hpass,
        if_neg (by decide), markFirst, hpass, if_neg (by decide), shown?, ih, Option.map_some]
    · rw [doubled_cons hc, markFirst]
      split
      · rw [markedAt_zero, shown?_mark hc, shown?_doubled, Option.map_some]
      · rw [markedAt_succ, shown?_cons hc, ih, Option.map_some]

theorem shown?_mnemonic_eq (text : String) {hotkey : Option String}
    (h : keyOf? hotkey ≠ some '&') : shown? (mnemonic text hotkey).toList =
      some (markedAt (hotkeyIndex? text hotkey) text.toList) := by
  rw [mnemonic, hotkeyIndex?, String.toList_ofList]
  rcases hkey : keyOf? hotkey with _ | key
  · exact shown?_doubled text.toList
  · exact shown?_markFirst_doubled (fun heq => h (heq ▸ hkey)) text.toList

/-! ## The same hotkey for all targets -/

theorem exists_getElem?_of_hotkeyIndex? {text : String} {hotkey : Option String} {i : Nat}
    (h : hotkeyIndex? text hotkey = some i) : ∃ c, text.toList[i]? = some c := by
  obtain ⟨key, -, hkey⟩ := Option.bind_eq_some_iff.mp h
  obtain ⟨hlt, -⟩ := List.findIdx?_eq_some_iff_getElem.mp hkey
  exact ⟨_, List.getElem?_eq_getElem hlt⟩

/-- Where the hotkey is no ampersand, a caption with its mnemonic shows the text, and the character
that it marks is the one at the index of the hotkey; there is none when the hotkey has no index. -/
theorem shown?_mnemonic (text : String) (hotkey : Option String)
    (h : ∀ key ∈ hotkey, key.toList.head? ≠ some '&') :
    ∃ shown, shown? (mnemonic text hotkey).toList = some shown ∧
      shown.map Prod.fst = text.toList ∧
      ∀ i, (∃ c, shown[i]? = some (c, true)) ↔ hotkeyIndex? text hotkey = some i := by
  have hkey : keyOf? hotkey ≠ some '&' := by
    intro hkey
    obtain ⟨key, hmem, hhead⟩ := Option.bind_eq_some_iff.mp hkey
    exact h key hmem hhead
  refine ⟨_, shown?_mnemonic_eq text hkey, map_fst_markedAt _ _, fun i => ?_⟩
  rw [getElem?_markedAt]
  constructor
  · rintro ⟨c, hc⟩
    obtain ⟨d, -, hd⟩ := Option.map_eq_some_iff.mp hc
    exact eq_of_beq (Prod.mk.inj hd).2
  · intro hindex
    obtain ⟨c, hc⟩ := exists_getElem?_of_hotkeyIndex? hindex
    exact ⟨c, by rw [hc, hindex]; simp⟩

/-- A hotkey in the other case, with ampersands before, next to and behind it. -/
theorem shown?_mnemonic_ampersands :
    (∀ key ∈ some "Xé", key.toList.head? ≠ some '&') ∧
      mnemonic "Q&A && É&x&" (some "Xé") = "Q&&A &&&& É&&&x&&" ∧
      hotkeyIndex? "Q&A && É&x&" (some "Xé") = some 9 ∧
      ∃ shown, shown? (mnemonic "Q&A && É&x&" (some "Xé")).toList = some shown ∧
        shown.map Prod.fst = "Q&A && É&x&".toList ∧
        ∀ i, (∃ c, shown[i]? = some (c, true)) ↔
          hotkeyIndex? "Q&A && É&x&" (some "Xé") = some i := by
  have hkey : ∀ key ∈ some "Xé", key.toList.head? ≠ some '&' := by decide
  exact ⟨hkey, by decide, by decide, shown?_mnemonic _ _ hkey⟩

/-- An ampersand as the hotkey would mark the character behind it. -/
example : shown? (mnemonic "R&D" (some "&")).toList =
    some [('R', false), ('&', false), ('D', true)] := by decide

end ScreenForms.Caption
