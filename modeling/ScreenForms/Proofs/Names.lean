import ScreenForms.Form.Document
import ScreenForms.Proofs.Folding

/-!
# Names that are free and names that are not

A default name is sought until a free one is found, and one is found: among one number more than
there are names in use some number is free (`NameCounter.not_mem_used_firstFree`). A name that a control
brings along is free, or else it is put in front of the id, and nobody looks whether the name that
comes out is free (`NameRegistry.choose_of_mem_used`).
-/

namespace ScreenForms

open NameRegistry

/-- A control whose name is a given one with its id behind it. -/
def Control.HasFallbackName (c : Control) : Prop := ∃ given, c.name = given ++ "_" ++ c.id

/-- A control whose name is a default name of its kind. -/
def Control.HasDefaultName (c : Control) : Prop := ∃ n, c.name = NameCounter.nameAt c.kind n

namespace NameRegistry

variable {r : NameRegistry}

theorem contains_iff {name : String} : r.contains name ↔ fold name ∈ r.used := by
  rw [contains, decide_eq_true_iff]

/-- A name is taken as it is only when it is free. -/
theorem choose_of_mem_used {name : String} {id : ControlId}
    (h : fold (r.choose name id) ∈ r.used) : r.choose name id = name ++ "_" ++ id := by
  rw [← contains_iff] at h
  unfold choose at h ⊢
  split at h
  · next hused => rw [if_pos hused]
  · next hfree =>
    rw [Bool.not_eq_true, Bool.or_eq_false_iff] at hfree
    rw [hfree.2] at h
    cases h

/-- Controls have the names that they claimed one after another. -/
inductive Claims : NameRegistry → List Control → Prop
  | nil (r : NameRegistry) : Claims r []
  | cons {r : NameRegistry} {c : Control} {cs : List Control} (given : String)
      (h : c.name = r.choose given c.id) (rest : Claims (r.reserve c.name) cs) : Claims r (c :: cs)

namespace Claims

variable {cs : List Control}

theorem taken (h : r.Claims cs) : ∀ c ∈ cs, fold c.name ∈ r.used → c.HasFallbackName := by
  induction h with
  | nil => exact fun c hc => absurd hc List.not_mem_nil
  | cons given h _ ih =>
    refine List.forall_mem_cons.mpr ⟨fun hused => ⟨given, ?_⟩, fun d hd hused => ?_⟩
    · rw [h] at hused ⊢
      exact choose_of_mem_used hused
    · exact ih d hd (List.mem_cons_of_mem _ hused)

theorem later (h : r.Claims cs) :
    cs.Pairwise fun c d => fold c.name = fold d.name → d.HasFallbackName := by
  induction h with
  | nil => exact .nil
  | cons given h rest ih =>
    refine List.pairwise_cons.mpr ⟨fun d hd heq => rest.taken d hd ?_, ih⟩
    exact heq ▸ List.mem_cons_self

end Claims

end NameRegistry

namespace NameCounter

theorem fold_nameAt_injective {kind : ControlKind} {m n : Nat}
    (h : fold (nameAt kind m) = fold (nameAt kind n)) : m = n := by
  have hlists := fold_eq_iff.mp h
  simp only [nameAt, String.toList_append, Text.lower, List.map_append,
    Decimal.toList_intText_ofNat] at hlists
  have hdigits := List.append_cancel_left hlists
  rw [← Text.lower, ← Text.lower, Text.lower_decimalText, Text.lower_decimalText] at hdigits
  exact Decimal.decimalText_injective hdigits

theorem firstFree_spec (kind : ControlKind) (names : NameRegistry) (fuel n : Nat) :
    names.contains (nameAt kind (firstFree kind names fuel n)) = false ∨
      firstFree kind names fuel n = n + fuel + 1 ∧
        ∀ k, n < k → k ≤ n + fuel → names.contains (nameAt kind k) := by
  induction fuel generalizing n with
  | zero => exact .inr ⟨rfl, fun k hk hk' => absurd hk (by omega)⟩
  | succ fuel ih =>
    rw [firstFree]
    split
    · next hused =>
      rcases ih (n + 1) with hfree | ⟨heq, hall⟩
      · exact .inl hfree
      · refine .inr ⟨by omega, fun k hk hk' => ?_⟩
        rcases Nat.eq_or_lt_of_le hk with rfl | hk
        · exact hused
        · exact hall k hk (by omega)
    · next hfree => exact .inl (by simpa using hfree)

/-- The name that is found is free: more numbers are tried than names are in use. -/
theorem not_mem_used_firstFree (kind : ControlKind) (names : NameRegistry) (n : Nat) :
    fold (nameAt kind (firstFree kind names names.used.length n)) ∉ names.used := by
  intro hused
  rcases firstFree_spec kind names names.used.length n with hfree | ⟨heq, hall⟩
  · rw [contains_iff.mpr hused] at hfree
    cases hfree
  · -- the search ran to its end, so it tried one name more than there are in use
    rw [heq] at hused
    have htried : ((List.range' (n + 1) (names.used.length + 1)).map
        fun k => fold (nameAt kind k)).Subset names.used := by
      intro name hname
      obtain ⟨k, hk, rfl⟩ := List.mem_map.mp hname
      rw [List.mem_range'_1] at hk
      rcases Nat.lt_or_ge k (n + names.used.length + 1) with hlt | hge
      · exact contains_iff.mp (hall k (by omega) (by omega))
      · obtain rfl : k = n + names.used.length + 1 := by omega
        exact hused
    have hnodup : ((List.range' (n + 1) (names.used.length + 1)).map
        fun k => fold (nameAt kind k)).Nodup :=
      List.Nodup.map (fun _ _ => fold_nameAt_injective) List.nodup_range'
    have hlength := (List.subperm_of_subset hnodup htried).length_le
    rw [List.length_map, List.length_range'] at hlength
    omega

end NameCounter

/-! ## Names of a document -/

namespace Document

variable {doc : Document}

/-- Where names are distinct, a control is found by its name in any case. -/
theorem controlNamed?_eq_some_iff {c : Control}
    (hnames : (doc.controls.map fun c => fold c.name).Nodup) (hc : c ∈ doc.controls)
    {name : String} : doc.controlNamed? name = some c ↔ fold name = fold c.name := by
  constructor
  · intro h
    have hsame := List.find?_some h
    rw [Text.sameName, beq_iff_eq] at hsame
    exact (fold_eq_iff.mpr hsame).symm
  · intro h
    have hpred : (fun d : Control => Text.sameName d.name name) =
        fun d => fold d.name == fold c.name := by
      funext d
      rw [Bool.eq_iff_iff, beq_iff_eq, ← h, fold_eq_iff, Text.sameName, beq_iff_eq]
    rw [controlNamed?, hpred]
    exact find?_key (fun c : Control => fold c.name) hnames hc

/-- What every importer sees to: of two controls with one name the later has a fallback name, and a
control with the name of the form has a fallback or a default name. -/
structure NamedApart (doc : Document) : Prop where
  later : doc.controls.Pairwise fun c d => fold c.name = fold d.name → d.HasFallbackName
  form : ∀ c ∈ doc.controls, fold c.name = fold doc.window.name →
    c.HasFallbackName ∨ c.HasDefaultName

/-- Names that were claimed after that of the form. -/
theorem namedApart_of_claims (h : (reserve {} doc.window.name).Claims doc.controls) :
    doc.NamedApart := by
  refine ⟨h.later, fun c hc heq => .inl (h.taken c hc ?_)⟩
  exact heq ▸ List.mem_cons_self

/-- No fallback name is that of another control or of the form, and the name of the form is not the
default name of a control. -/
def KeepsNamesFree (doc : Document) : Prop :=
  ∀ c ∈ doc.controls,
    (c.HasFallbackName → ∀ d ∈ doc.controls, d ≠ c → fold d.name ≠ fold c.name) ∧
      (c.HasFallbackName ∨ c.HasDefaultName → fold c.name ≠ fold doc.window.name)

/-- Names coincide only where a fallback name or the name of a form was not looked up. -/
theorem NamedApart.distinct_iff (h : doc.NamedApart) (hids : (doc.controls.map Control.id).Nodup) :
    ((doc.window.name :: doc.controls.map Control.name).map fold).Nodup ↔ doc.KeepsNamesFree := by
  have hcontrols : doc.controls.Nodup := hids.of_map
  rw [List.map_cons, List.nodup_cons, List.map_map]
  constructor
  · rintro ⟨hform, hnames⟩ c hc
    refine ⟨fun _ d hd hne heq => hne (List.inj_on_of_nodup_map hnames hd hc heq), fun _ heq => ?_⟩
    exact hform (heq ▸ List.mem_map_of_mem (f := fold ∘ Control.name) hc)
  · intro hfree
    refine ⟨fun hmem => ?_, ?_⟩
    · obtain ⟨c, hc, heq⟩ := List.mem_map.mp hmem
      exact (hfree c hc).2 (h.form c hc heq) heq
    · refine List.pairwise_map.mpr ?_
      refine (h.later.and hcontrols).imp_of_mem fun hc hd hboth heq => ?_
      exact (hfree _ hd).1 (hboth.1 heq) _ hc hboth.2 heq

end Document

end ScreenForms
