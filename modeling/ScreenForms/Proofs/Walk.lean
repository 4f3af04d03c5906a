import Mathlib.Data.List.Nodup
import Mathlib.Data.List.Perm.Subperm
import Mathlib.Data.Nat.Find
import Mathlib.Logic.Relation

/-!
# Walks along links

Controls link to what holds them and records to what contains them, and in both cases a walk along
the links may end or go round in a circle. A link is a partial function `up`; `climb up n a` is
where `n` steps from `a` lead. Two facts carry everything that is proved about such walks: over
finitely many members a long walk passes some member twice (`exists_repeat`), and one step after
another is the transitive closure of the link (`transGen_iff`).
-/

namespace ScreenForms

universe u

variable {α : Type u} {up : α → Option α}

/-- Where `n` steps along a link lead, if the walk goes on for so long. -/
def climb (up : α → Option α) : Nat → α → Option α
  | 0, a => some a
  | n + 1, a => (up a).bind (climb up n)

@[simp] theorem climb_zero (a : α) : climb up 0 a = some a := rfl

theorem climb_succ (n : Nat) (a : α) : climb up (n + 1) a = (up a).bind (climb up n) := rfl

theorem climb_one (a : α) : climb up 1 a = up a := by
  rw [climb_succ]
  cases up a <;> rfl

theorem climb_add (m n : Nat) (a : α) :
    climb up (m + n) a = (climb up m a).bind (climb up n) := by
  induction m generalizing a with
  | zero => simp
  | succ m ih =>
    rw [Nat.add_right_comm, climb_succ, climb_succ]
    cases up a with
    | none => rfl
    | some b => exact ih b

theorem climb_succ' (n : Nat) (a : α) : climb up (n + 1) a = (climb up n a).bind up := by
  rw [climb_add]
  congr 1
  funext b
  exact climb_one b

/-- A walk that has ended stays ended. -/
theorem climb_eq_none_of_le {m n : Nat} {a : α} (hmn : m ≤ n) (h : climb up m a = none) :
    climb up n a = none := by
  obtain ⟨k, rfl⟩ := Nat.exists_eq_add_of_le hmn
  rw [climb_add, h]
  rfl

/-- A walk of `n` steps passes some member after `m` of them and goes on from there. -/
theorem exists_climb_of_le {m n : Nat} {a b : α} (hmn : m ≤ n) (h : climb up n a = some b) :
    ∃ c, climb up m a = some c ∧ climb up (n - m) c = some b := by
  obtain ⟨k, rfl⟩ := Nat.exists_eq_add_of_le hmn
  rw [climb_add] at h
  obtain ⟨c, hc, hb⟩ := Option.bind_eq_some_iff.mp h
  exact ⟨c, hc, by rwa [Nat.add_sub_cancel_left]⟩

/-- A member that is passed twice lies on a circle. -/
theorem climb_sub_of_eq {m n : Nat} {a b : α} (hmn : m ≤ n) (hm : climb up m a = some b)
    (hn : climb up n a = some b) : climb up (n - m) b = some b := by
  obtain ⟨c, hc, hb⟩ := exists_climb_of_le hmn hn
  rw [hm] at hc
  obtain rfl := Option.some.inj hc
  exact hb

/-- A member is above another when steps along the link lead there. -/
abbrev Above (up : α → Option α) : α → α → Prop := Relation.TransGen fun a b => up a = some b

theorem transGen_iff {a b : α} : Above up a b ↔ ∃ n, climb up (n + 1) a = some b := by
  constructor
  · intro h
    induction h with
    | single hb => exact ⟨0, by rwa [climb_one]⟩
    | tail _ hc ih =>
      obtain ⟨n, hn⟩ := ih
      exact ⟨n + 1, by rw [climb_succ', hn]; exact hc⟩
  · rintro ⟨n, hn⟩
    induction n generalizing b with
    | zero =>
      rw [climb_one] at hn
      exact .single hn
    | succ n ih =>
      rw [climb_succ'] at hn
      obtain ⟨c, hc, hb⟩ := Option.bind_eq_some_iff.mp hn
      exact .tail (ih hc) hb

/-- A walk from a member of a circle never ends and stays on circles. -/
theorem exists_climb_of_above {a : α} (h : Above up a a) (n : Nat) :
    ∃ b, climb up n a = some b ∧ Above up b b := by
  induction n with
  | zero => exact ⟨a, rfl, h⟩
  | succ n ih =>
    obtain ⟨b, hb, hbb⟩ := ih
    obtain ⟨c, hbc, hcb⟩ := Relation.TransGen.head'_iff.mp hbb
    refine ⟨c, by rw [climb_succ', hb]; exact hbc, ?_⟩
    rcases Relation.reflTransGen_iff_eq_or_transGen.mp hcb with rfl | hcb
    · exact .single hbc
    · exact .tail hcb hbc

/-- A walk that ends meets no circle. -/
theorem not_above_of_climb_eq_none {k n : Nat} {a b : α} (hend : climb up n a = none)
    (hk : climb up k a = some b) : ¬ Above up b b := by
  intro h
  obtain ⟨c, hc, -⟩ := exists_climb_of_above h n
  have hlong : climb up (k + n) a = some c := by
    rw [climb_add, hk]
    exact hc
  rw [climb_eq_none_of_le (Nat.le_add_left n k) hend] at hlong
  cases hlong

/-- What leads to a member that lies on no circle lies on none either. -/
theorem not_above_of_up {a b : α} (h : up a = some b) (hb : ¬ Above up b b) : ¬ Above up a a := by
  intro ha
  obtain ⟨c, hc, hback⟩ := Relation.TransGen.head'_iff.mp ha
  obtain rfl := Option.some.inj (h.symm.trans hc)
  exact hb (.tail' hback h)

theorem not_above_of_up_eq_none {a : α} (h : up a = none) : ¬ Above up a a :=
  not_above_of_climb_eq_none (n := 1) ((climb_one a).trans h) (climb_zero a)

/-- A walk that ends has a last member. -/
theorem exists_last_climb {n : Nat} {a : α} (h : climb up n a = none) :
    ∃ k b, k < n ∧ climb up k a = some b ∧ up b = none := by
  induction n with
  | zero => cases h
  | succ n ih =>
    rcases hn : climb up n a with _ | b
    · obtain ⟨k, b, hk, hb⟩ := ih hn
      exact ⟨k, b, Nat.lt_succ_of_lt hk, hb⟩
    · rw [climb_succ', hn] at h
      exact ⟨n, b, Nat.lt_succ_self n, hn, h⟩

/-- A walk reaches its last member after one number of steps. -/
theorem climb_end_unique {k l : Nat} {a b c : α} (hk : climb up k a = some b) (hb : up b = none)
    (hl : climb up l a = some c) (hc : up c = none) : k = l := by
  have hle : ∀ {k l : Nat} {b c : α}, climb up k a = some b → up b = none →
      climb up l a = some c → l ≤ k := by
    intro k l b c hk hb hl
    by_contra hlt
    obtain ⟨d, hd, hrest⟩ := exists_climb_of_le (Nat.le_of_lt (Nat.lt_of_not_le hlt)) hl
    obtain rfl := Option.some.inj (hk.symm.trans hd)
    obtain ⟨n, hn⟩ : ∃ n, l - k = n + 1 := ⟨l - k - 1, by omega⟩
    rw [hn, climb_succ, hb] at hrest
    cases hrest
  exact Nat.le_antisymm (hle hl hc hk) (hle hk hb hl)

/-- Walks stay among the members that the link leads to. -/
theorem mem_of_climb {S : List α} (hup : ∀ b c, up b = some c → c ∈ S) {n : Nat} {a b : α}
    (ha : a ∈ S) (h : climb up n a = some b) : b ∈ S := by
  cases n with
  | zero => exact Option.some.inj h ▸ ha
  | succ n =>
    rw [climb_succ'] at h
    obtain ⟨c, -, hcb⟩ := Option.bind_eq_some_iff.mp h
    exact hup c b hcb

/-- Two members that follow the same one, or both none, are the same when a walk passes both and
no circle goes through them. -/
theorem eq_of_climb_eq {k l : Nat} {a b x : α} (hup : up a = up b) (ha : ¬ Above up a a)
    (hb : ¬ Above up b b) (hk : climb up k x = some a) (hl : climb up l x = some b) : a = b := by
  have hlater : ∀ {k l : Nat} {a b : α}, up a = up b → ¬ Above up b b → k < l →
      climb up k x = some a → climb up l x = some b → False := by
    intro k l a b hup hb hlt hk hl
    obtain ⟨c, hc, hcb⟩ := exists_climb_of_le (Nat.le_of_lt hlt) hl
    rw [hk] at hc
    obtain rfl := Option.some.inj hc
    obtain ⟨n, hn⟩ : ∃ n, l - k = n + 1 := ⟨l - k - 1, by omega⟩
    -- the way up from `a` is the way up from `b`, which comes back to `b`
    rw [hn, climb_succ, hup, ← climb_succ] at hcb
    exact hb (transGen_iff.mpr ⟨n, hcb⟩)
  rcases Nat.lt_trichotomy k l with hlt | rfl | hgt
  · exact (hlater hup hb hlt hk hl).elim
  · rw [hk] at hl
    exact Option.some.inj hl
  · exact (hlater hup.symm ha hgt hl hk).elim

/-- Among finitely many members a walk longer than their number passes one of them twice. This
bounds the climbs through parents, holders and containers. -/
theorem exists_repeat {S : List α} {n : Nat} {a : α}
    (hS : ∀ i < n, ∃ b ∈ S, climb up i a = some b) (hn : S.length < n) :
    ∃ i j b, i < j ∧ j < n ∧ climb up i a = some b ∧ climb up j a = some b := by
  by_contra hno
  have hnodup : ((List.range n).map fun i => climb up i a).Nodup := by
    refine List.Nodup.map_on ?_ List.nodup_range
    intro i hi j hj hij
    rw [List.mem_range] at hi hj
    obtain ⟨b, -, hb⟩ := hS i hi
    rcases Nat.lt_trichotomy i j with hlt | heq | hgt
    · exact absurd ⟨i, j, b, hlt, hj, hb, hij ▸ hb⟩ hno
    · exact heq
    · exact absurd ⟨j, i, b, hgt, hi, hij ▸ hb, hb⟩ hno
  have hsub : ((List.range n).map fun i => climb up i a) ⊆ S.map some := by
    intro o ho
    obtain ⟨i, hi, rfl⟩ := List.mem_map.mp ho
    obtain ⟨b, hbS, hb⟩ := hS i (List.mem_range.mp hi)
    exact List.mem_map.mpr ⟨b, hbS, hb.symm⟩
  have hle := (List.subperm_of_subset hnodup hsub).length_le
  rw [List.length_map, List.length_map, List.length_range] at hle
  omega

/-- A walk inside a finite set that takes as many steps as the set has members meets a circle. -/
theorem exists_above_of_climb_length {S : List α} {a b : α} (ha : a ∈ S)
    (hup : ∀ b c, up b = some c → c ∈ S) (h : climb up S.length a = some b) :
    ∃ k c, climb up k a = some c ∧ Above up c c := by
  -- every earlier stop exists as well, one more than there are members
  obtain ⟨i, j, c, hij, -, hi, hj⟩ : ∃ i j c, i < j ∧ j < S.length + 1 ∧
      climb up i a = some c ∧ climb up j a = some c := by
    refine exists_repeat ?_ (Nat.lt_succ_self _)
    intro i hi
    obtain ⟨c, hc, -⟩ := exists_climb_of_le (Nat.le_of_lt_succ hi) h
    exact ⟨c, mem_of_climb hup ha hc, hc⟩
  refine ⟨i, c, hi, transGen_iff.mpr ⟨j - i - 1, ?_⟩⟩
  rw [Nat.sub_add_cancel (by omega)]
  exact climb_sub_of_eq (Nat.le_of_lt hij) hi hj

/-- A walk inside a finite set that meets no circle ends within as many steps as the set has
members. -/
theorem climb_length_eq_none {S : List α} {a : α} (ha : a ∈ S)
    (hup : ∀ b c, up b = some c → c ∈ S) (hno : ∀ b ∈ S, ¬ Above up b b) :
    climb up S.length a = none := by
  refine Option.eq_none_iff_forall_ne_some.mpr fun b h => ?_
  obtain ⟨k, c, hk, hc⟩ := exists_above_of_climb_length ha hup h
  exact hno c (mem_of_climb hup ha hk) hc

/-- A walk inside a finite set that ends does so within as many steps as the set has members. -/
theorem climb_length_eq_none_of_ends {S : List α} {n : Nat} {a : α} (ha : a ∈ S)
    (hup : ∀ b c, up b = some c → c ∈ S) (hend : climb up n a = none) :
    climb up S.length a = none := by
  refine Option.eq_none_iff_forall_ne_some.mpr fun b h => ?_
  obtain ⟨k, c, hk, hc⟩ := exists_above_of_climb_length ha hup h
  exact not_above_of_climb_eq_none hend hk hc

/-- A circle through a member comes back within as many steps as there are members that have a
link. -/
theorem exists_climb_lt_length {S : List α} {a : α} (hS : ∀ b c, up b = some c → b ∈ S)
    (h : Above up a a) : ∃ n < S.length, climb up (n + 1) a = some a := by
  have hex := transGen_iff.mp h
  classical
  refine ⟨Nat.find hex, ?_, Nat.find_spec hex⟩
  by_contra hlen
  -- a repetition inside the shortest circle would give a shorter one
  obtain ⟨i, j, c, hij, hj, hi, hc⟩ : ∃ i j c, i < j ∧ j < Nat.find hex + 1 ∧
      climb up i a = some c ∧ climb up j a = some c := by
    refine exists_repeat (S := S) ?_ (by omega)
    intro i hi
    obtain ⟨c, hc, hrest⟩ := exists_climb_of_le (Nat.le_of_lt hi) (Nat.find_spec hex)
    obtain ⟨k, hk⟩ : ∃ k, Nat.find hex + 1 - i = k + 1 := ⟨Nat.find hex - i, by omega⟩
    rw [hk, climb_succ] at hrest
    obtain ⟨d, hd, -⟩ := Option.bind_eq_some_iff.mp hrest
    exact ⟨c, hS c d hd, hc⟩
  obtain ⟨d, hd, hrest⟩ := exists_climb_of_le (Nat.le_of_lt hj) (Nat.find_spec hex)
  rw [hc] at hd
  obtain rfl := Option.some.inj hd
  have hshort : climb up (i + (Nat.find hex + 1 - j)) a = some a := by
    rw [climb_add, hi]
    exact hrest
  have hle : Nat.find hex ≤ i + (Nat.find hex - j) :=
    Nat.find_min' hex (by rwa [show i + (Nat.find hex - j) + 1 = i + (Nat.find hex + 1 - j)
      by omega])
  omega

end ScreenForms
