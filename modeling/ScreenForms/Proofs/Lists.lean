import Mathlib.Data.List.Forall2
import Mathlib.Data.List.Nodup
import Mathlib.Data.List.Perm.Basic
import Mathlib.Data.List.TakeWhile

/-!
# Lists with keys or separators, runs, and maps that may fail

What the theory of forms needs to know about lists: members found by distinct keys, members sorted
into the keys they have, what stands before or behind a separator, where a run of members ends, and
maps whose function may fail.
-/

namespace ScreenForms

/-- Where keys are distinct, looking for the key of a member finds that member. -/
theorem find?_key {α β : Type} [DecidableEq β] (key : α → β) {l : List α} {a : α}
    (hnodup : (l.map key).Nodup) (ha : a ∈ l) : (l.find? fun b => key b == key a) = some a := by
  induction l with
  | nil => cases ha
  | cons b l ih =>
    rw [List.map_cons, List.nodup_cons] at hnodup
    rcases List.mem_cons.mp ha with rfl | ha
    · simp
    · have hne : key b ≠ key a := fun h => hnodup.1 (h ▸ List.mem_map_of_mem ha)
      rw [List.find?_cons_of_neg (by simpa using hne)]
      exact ih hnodup.2 ha

/-- Two filters that exclude each other take a list apart. -/
theorem filter_append_perm_or {α : Type} {p q : α → Bool} {l : List α}
    (h : ∀ a ∈ l, p a = true → q a = false) :
    (l.filter p ++ l.filter q).Perm (l.filter fun a => p a || q a) := by
  have hsplit := List.filter_append_perm p (l.filter fun a => p a || q a)
  rw [List.filter_filter, List.filter_filter] at hsplit
  refine List.Perm.trans (.of_eq (congrArg₂ _ ?_ ?_)) hsplit
  · refine List.filter_congr fun a _ => ?_
    cases p a <;> simp
  · refine List.filter_congr fun a ha => ?_
    rcases hp : p a with _ | _
    · simp
    · simp [h a ha hp]

/-- Sorting the members of a list into distinct keys keeps those that have one of the keys. -/
theorem flatMap_filter_perm {α β : Type} [BEq β] [LawfulBEq β] (key : α → β) {keys : List β}
    (hnodup : keys.Nodup) (l : List α) :
    (keys.flatMap fun k => l.filter fun a => key a == k).Perm
      (l.filter fun a => key a ∈ keys) := by
  induction keys with
  | nil => simp
  | cons k keys ih =>
    rw [List.nodup_cons] at hnodup
    have hsplit : (l.filter (fun a => key a == k) ++ l.filter (fun a => key a ∈ keys)).Perm
        (l.filter fun a => key a == k || decide (key a ∈ keys)) := by
      refine filter_append_perm_or fun a _ ha => ?_
      rw [beq_iff_eq] at ha
      simpa [ha] using hnodup.1
    rw [List.flatMap_cons]
    refine ((ih hnodup.2).append_left _).trans (hsplit.trans (.of_eq ?_))
    refine List.filter_congr fun a _ => ?_
    by_cases h : key a = k <;> simp [h]

/-- What stands before the first separator is read off from the whole. -/
theorem eq_of_append_separator {α : Type} {a : α} {xs ys us vs : List α} (hx : a ∉ xs)
    (hy : a ∉ ys) (h : xs ++ a :: us = ys ++ a :: vs) : xs = ys := by
  induction xs generalizing ys with
  | nil =>
    cases ys with
    | nil => rfl
    | cons y ys =>
      obtain ⟨rfl, -⟩ := List.cons.inj h
      exact absurd List.mem_cons_self hy
  | cons x xs ih =>
    cases ys with
    | nil =>
      obtain ⟨rfl, -⟩ := List.cons.inj h
      exact absurd List.mem_cons_self hx
    | cons y ys =>
      obtain ⟨rfl, htail⟩ := List.cons.inj h
      rw [ih (fun hmem => hx (List.mem_cons_of_mem _ hmem))
        (fun hmem => hy (List.mem_cons_of_mem _ hmem)) htail]

/-- What stands around the last separator is read off from the whole. -/
theorem eq_of_append_last_separator {α : Type} {a : α} {xs ys us vs : List α} (hu : a ∉ us)
    (hv : a ∉ vs) (h : xs ++ a :: us = ys ++ a :: vs) : xs = ys ∧ us = vs := by
  have hreverse : us.reverse ++ a :: xs.reverse = vs.reverse ++ a :: ys.reverse := by
    simpa using congrArg List.reverse h
  have hbehind : us = vs := List.reverse_injective
    (eq_of_append_separator (by simpa using hu) (by simpa using hv) hreverse)
  obtain rfl := hbehind
  exact ⟨List.append_cancel_right h, rfl⟩

/-- Where members are distinct, what stands around one of them is read off from the whole. -/
theorem eq_of_append_nodup {α : Type} {a : α} {xs ys us vs : List α}
    (hnodup : (xs ++ a :: us).Nodup) (h : xs ++ a :: us = ys ++ a :: vs) : xs = ys ∧ us = vs := by
  have hout : ∀ {xs us : List α}, (xs ++ a :: us).Nodup → a ∉ us := fun hnodup =>
    (List.nodup_cons.mp (List.nodup_append.mp hnodup).2.1).1
  exact eq_of_append_last_separator (hout hnodup) (hout (h ▸ hnodup)) h

/-- What one member contributes stands in one piece. -/
theorem infix_flatMap {α β : Type} {a : α} {l : List α} (ha : a ∈ l) (f : α → List β) :
    f a <:+: l.flatMap f :=
  List.flatMap_def (f := f) ▸ List.infix_of_mem_flatten (List.mem_map_of_mem ha)

/-- Where members are distinct, a part of the list that has all members with a property keeps them
in order. -/
theorem filter_eq_of_isInfix {α : Type} {l m : List α} {p : α → Bool} (hnodup : l.Nodup)
    (hpart : m <:+: l) (h : ∀ a ∈ l, p a = true → a ∈ m) : l.filter p = m.filter p := by
  obtain ⟨xs, ys, rfl⟩ := hpart
  have hxs : xs.filter p = [] := by
    refine List.filter_eq_nil_iff.mpr fun a ha hp => ?_
    have hm := h a (List.mem_append_left _ (List.mem_append_left _ ha)) hp
    exact (List.nodup_append.mp (List.nodup_append.mp hnodup).1).2.2 a ha a hm rfl
  have hys : ys.filter p = [] := by
    refine List.filter_eq_nil_iff.mpr fun a ha hp => ?_
    have hm := h a (List.mem_append_right _ ha) hp
    exact (List.nodup_append.mp hnodup).2.2 a (List.mem_append_right _ hm) a ha rfl
  rw [List.filter_append, List.filter_append, hxs, hys, List.nil_append, List.append_nil]

/-- A separator found in two places of one list stands at the same place, or each side of it reaches
across the other. -/
theorem append_separator_eq_iff {α : Type} {a : α} {xs ys us vs : List α} :
    xs ++ a :: us = ys ++ a :: vs ↔
      (xs = ys ∧ us = vs) ∨ (∃ ws, ys = xs ++ a :: ws ∧ us = ws ++ a :: vs) ∨
        ∃ ws, xs = ys ++ a :: ws ∧ vs = ws ++ a :: us := by
  constructor
  · intro h
    rcases List.append_eq_append_iff.mp h with ⟨ws, rfl, htail⟩ | ⟨ws, rfl, htail⟩
    · cases ws with
      | nil => simpa using htail
      | cons b ws =>
        simp only [List.cons_append, List.cons.injEq] at htail
        obtain ⟨rfl, rfl⟩ := htail
        exact .inr (.inl ⟨ws, rfl, rfl⟩)
    · cases ws with
      | nil => simpa [eq_comm] using htail
      | cons b ws =>
        simp only [List.cons_append, List.cons.injEq] at htail
        obtain ⟨rfl, rfl⟩ := htail
        exact .inr (.inr ⟨ws, rfl, rfl⟩)
  · rintro (⟨rfl, rfl⟩ | ⟨ws, rfl, rfl⟩ | ⟨ws, rfl, rfl⟩) <;> simp

/-! ## Runs -/

section runs

variable {α : Type}

theorem span_append_of_mem (p : α → Bool) {xs : List α} {a : α} (ha : a ∈ xs)
    (hp : p a = false) (ys : List α) :
    (xs ++ ys).takeWhile p = xs.takeWhile p ∧ (xs ++ ys).dropWhile p = xs.dropWhile p ++ ys := by
  induction xs with
  | nil => cases ha
  | cons x xs ih =>
    rcases hx : p x with _ | _
    · simp [hx]
    · have hne : a ≠ x := by
        rintro rfl
        rw [hp] at hx
        cases hx
      obtain ⟨htake, hdrop⟩ := ih (List.mem_of_ne_of_mem hne ha)
      simp [hx, htake, hdrop]

theorem mem_dropWhile (p : α → Bool) {xs : List α} {a : α} (ha : a ∈ xs)
    (hp : p a = false) : a ∈ xs.dropWhile p := by
  rw [← List.takeWhile_append_dropWhile (p := p) (l := xs), List.mem_append] at ha
  refine ha.resolve_left fun htake => ?_
  rw [List.mem_takeWhile_imp htake] at hp
  cases hp

theorem head?_cons_eq_false {p : α → Bool} {a : α} (h : p a = false) (xs : List α) :
    ∀ b, (a :: xs).head? = some b → p b = false := by
  rintro b ⟨⟩
  exact h

/-- A run ends where the next member is none of it. -/
theorem span_append_of_head? {p : α → Bool} {xs ys : List α} (hxs : ∀ a ∈ xs, p a = true)
    (hys : ∀ a, ys.head? = some a → p a = false) :
    (xs ++ ys).takeWhile p = xs ∧ (xs ++ ys).dropWhile p = ys := by
  rw [List.takeWhile_append_of_pos hxs, List.dropWhile_append_of_pos hxs]
  cases ys with
  | nil => simp
  | cons a ys => simp [hys a rfl]

/-- Every list begins with a run. -/
theorem exists_run (p : α → Bool) (xs : List α) : ∃ front back, xs = front ++ back ∧
    (∀ a ∈ front, p a = true) ∧ ∀ a, back.head? = some a → p a = false := by
  refine ⟨xs.takeWhile p, xs.dropWhile p, List.takeWhile_append_dropWhile.symm,
    fun a ha => List.mem_takeWhile_imp ha, fun a ha => ?_⟩
  have hhead := List.head?_dropWhile_not p xs
  rw [ha] at hhead
  simpa using hhead

end runs

section mapM

variable {α β ε : Type} {f : α → Except ε β}

theorem mapM_eq_ok_iff {l : List α} {r : List β} :
    l.mapM f = .ok r ↔ List.Forall₂ (fun a b => f a = .ok b) l r := by
  induction l generalizing r with
  | nil => cases r <;> simp [pure, Except.pure]
  | cons a l ih =>
    rw [List.mapM_cons]
    rcases ha : f a with e | b
    · cases r <;> simp [bind, Except.bind, ha]
    · rcases hl : l.mapM f with e | bs
      · cases r <;> simp [bind, Except.bind, ha, ← ih, hl]
      · cases r <;> simp [bind, Except.bind, pure, Except.pure, ha, ← ih, hl]

theorem exists_mapM_eq_ok_iff {l : List α} :
    (∃ r, l.mapM f = .ok r) ↔ ∀ a ∈ l, ∃ b, f a = .ok b := by
  simp only [mapM_eq_ok_iff]
  induction l with
  | nil => simp
  | cons a l ih =>
    rw [List.forall_mem_cons, ← ih]
    constructor
    · rintro ⟨_, hab⟩
      cases hab with
      | cons ha hl => exact ⟨⟨_, ha⟩, _, hl⟩
    · rintro ⟨⟨b, ha⟩, bs, hl⟩
      exact ⟨b :: bs, .cons ha hl⟩

end mapM

end ScreenForms
