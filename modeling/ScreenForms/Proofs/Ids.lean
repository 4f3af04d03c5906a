import Mathlib.Data.List.Nodup
import ScreenForms.Import.Naming
import ScreenForms.Proofs.Digits
import ScreenForms.Proofs.Lists

/-!
# Distinct ids

An id is made from a content, and the contents of a document are distinct: that of a record begins
with its position among the records, and that of any other control has the number of its id behind
the salt. So ids are distinct as far as the hash tells the contents apart.
-/

namespace ScreenForms

/-- The hash tells some contents apart. -/
def CollisionFree (contents : List (List UInt8)) : Prop :=
  ∀ a ∈ contents, ∀ b ∈ contents, contentId a = contentId b → a = b

theorem CollisionFree.nodup_map {contents : List (List UInt8)} (h : CollisionFree contents)
    (hnodup : contents.Nodup) : (contents.map contentId).Nodup :=
  hnodup.map_on h

/-- Where the ids came out distinct, the hash has told the contents apart. -/
theorem collisionFree_of_nodup {contents : List (List UInt8)}
    (h : (contents.map contentId).Nodup) : CollisionFree contents :=
  fun _ ha _ hb => List.inj_on_of_nodup_map h ha hb

/-- The id of a content is a letter and hexadecimal digits, so it has no underscore. -/
theorem underscore_not_mem_contentId (content : List UInt8) :
    '_' ∉ (contentId content).toList := by
  have hdigit : ∀ n < 16, Nat.digitChar n ≠ '_' := by decide
  have hbyte : ∀ b : UInt8, '_' ∉ Color.hexByte b := by
    intro b hmem
    have hb := b.toNat_lt
    simp only [Color.hexByte, List.mem_cons, List.not_mem_nil, or_false] at hmem
    rcases hmem with h | h
    · exact hdigit _ (by omega) h.symm
    · exact hdigit _ (by omega) h.symm
  rw [contentId, String.toList_ofList, List.mem_cons, List.mem_flatMap]
  rintro (h | ⟨b, -, h⟩)
  · exact absurd h (by decide)
  · exact hbyte b h

theorem utf8_injective {s t : String} (h : s.toUTF8.data.toList = t.toUTF8.data.toList) : s = t :=
  String.toByteArray_inj.mp (ByteArray.ext (Array.toList_inj.mp h))

/-- A number and a zero character in front of a text are read off from the whole. -/
theorem number_eq_of_append {m n : Nat} {s t : String}
    (h : Decimal.intText m ++ "\x00" ++ s = Decimal.intText n ++ "\x00" ++ t) : m = n := by
  have hzero : ∀ k : Nat, '\x00' ∉ Decimal.decimalText k := by
    intro k hmem
    exact absurd (Decimal.isDigit_of_mem_decimalText hmem) (by decide)
  have hlists := congrArg String.toList h
  simp only [String.toList_append, Decimal.toList_intText_ofNat, List.append_assoc] at hlists
  exact Decimal.decimalText_injective (eq_of_append_separator (hzero m) (hzero n) hlists)

/-! ## Records -/

namespace Record

theorem position_eq_of_identity_eq {m n : Nat} {r s : Record} (h : identity m r = identity n s) :
    m = n := by
  have htexts := utf8_injective h
  refine number_eq_of_append (s := r.parent ++ ("\x00" ++ r.objName))
    (t := s.parent ++ ("\x00" ++ s.objName)) ?_
  simpa only [String.append_assoc] using htexts

/-- The contents that the ids of records are made from. -/
def identities (records : List Record) : List (List UInt8) :=
  records.zipIdx.map fun r => identity r.2 r.1

/-- Of a record, only its parent and its name count. -/
theorem identities_eq (records : List Record) :
    identities records = (records.map fun r => (r.parent, r.objName)).zipIdx.map fun p =>
      identity p.2 { parent := p.1.1, objName := p.1.2 } := by
  rw [List.zipIdx_map, List.map_map]
  rfl

theorem identities_nodup (records : List Record) : (identities records).Nodup := by
  have hpositions : (records.zipIdx.map Prod.snd).Nodup := by
    rw [List.zipIdx_map_snd]
    exact List.nodup_range'
  refine List.Nodup.map_on ?_ (hpositions.of_map _)
  rintro ⟨r, m⟩ hr ⟨s, n⟩ hs h
  obtain rfl := position_eq_of_identity_eq h
  rw [List.mem_zipIdx_iff_getElem?] at hr hs
  obtain rfl := Option.some.inj (hr.symm.trans hs)
  rfl

/-- The ids of the records of a source are made from their identities. -/
theorem map_id_readAll (source : String) :
    (readAll source).records.map Record.id =
      (identities (readAll source).records).map contentId := by
  refine List.ext_getElem? fun i => ?_
  simp only [identities, readAll, readLines, List.getElem?_map, List.getElem?_zipIdx, Option.map_map]
  rfl

theorem ids_nodup {source : String} (h : CollisionFree (identities (readAll source).records)) :
    ((readAll source).records.map Record.id).Nodup := by
  rw [map_id_readAll]
  exact h.nodup_map (identities_nodup _)

end Record

/-! ## Sequences -/

namespace IdSequence

theorem number_eq_of_contentAt_eq {salt : String} {m n : Nat} {s t : String}
    (h : contentAt salt m s = contentAt salt n t) : m = n := by
  have htexts := congrArg String.toList (utf8_injective h)
  simp only [String.toList_append, List.append_assoc, List.append_cancel_left_eq] at htexts
  refine number_eq_of_append (s := s) (t := t) (String.ext ?_)
  simpa only [String.toList_append, List.append_assoc] using htexts

/-- The contents of a sequence carry distinct numbers, up to the number of ids. -/
structure Numbered (s : IdSequence) : Prop where
  numbered : ∀ content ∈ s.issued, ∃ n ≤ s.issued.length, ∃ hint, content = contentAt s.salt n hint
  nodup : s.issued.Nodup

theorem Numbered.empty (salt : String) : Numbered { salt } :=
  ⟨fun _ h => absurd h List.not_mem_nil, List.nodup_nil⟩

theorem Numbered.next {s : IdSequence} (h : s.Numbered) (hint : String) :
    (s.next hint).2.Numbered := by
  refine ⟨?_, List.nodup_cons.mpr ⟨?_, h.nodup⟩⟩
  · intro content hmem
    rcases List.mem_cons.mp hmem with rfl | hmem
    · exact ⟨s.issued.length + 1, Nat.le_refl _, hint, rfl⟩
    · obtain ⟨n, hn, hint, rfl⟩ := h.numbered content hmem
      exact ⟨n, Nat.le_succ_of_le hn, hint, rfl⟩
  · intro hmem
    obtain ⟨n, hn, hint, heq⟩ := h.numbered _ hmem
    have := number_eq_of_contentAt_eq heq
    omega

end IdSequence

end ScreenForms
