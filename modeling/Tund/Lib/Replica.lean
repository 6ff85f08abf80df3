import Mathlib.Tactic

/-!
# Replicas that are told of changes

A replica of a finite map is kept up to date by operations that are on their way to it.
Two sources speak to it, each in its own order but without waiting for the other: the
first puts and drops keys, the second only drops some.  `Settles view fst snd target`
relates a replica that shows `view` now to the original `target`, while `fst` and `snd`
are still to be said.

The rules say how the relation moves when a source speaks and when the original changes.
A source must not overtake the other on a key: the first does not put a key that is
present while the second has still to drop it, the second does not drop an absent key
while the first has still to put it.
-/

namespace Replica

variable {κ ν : Type*} [DecidableEq κ]

/-- A change of one key. -/
inductive Op (κ ν : Type*)
  | put (k : κ) (v : ν)
  | drop (k : κ)

/-- The map after a change. -/
def Op.apply (view : κ → Option ν) : Op κ ν → κ → Option ν
  | .put k v, x => if x = k then some v else view x
  | .drop k, x => if x = k then none else view x

/-- The map after a list of changes. -/
def run (view : κ → Option ν) (ops : List (Op κ ν)) : κ → Option ν := ops.foldl Op.apply view

@[simp] theorem run_nil (view : κ → Option ν) : run view [] = view := rfl

@[simp] theorem run_cons (view : κ → Option ν) (op : Op κ ν) (ops : List (Op κ ν)) :
    run view (op :: ops) = run (op.apply view) ops := rfl

theorem run_append (view : κ → Option ν) (as bs : List (Op κ ν)) :
    run view (as ++ bs) = run (run view as) bs := List.foldl_append

/-- What a key becomes depends only on what it was. -/
theorem run_congr {f g : κ → Option ν} {k : κ} (h : f k = g k) (ops : List (Op κ ν)) :
    run f ops k = run g ops k := by
  induction ops generalizing f g with
  | nil => exact h
  | cons op ops ih =>
    apply ih
    cases op <;> simp only [Op.apply, h]

/-- A key that nothing puts stays absent. -/
theorem run_eq_none {view : κ → Option ν} {k : κ} (h : view k = none) {ops : List (Op κ ν)}
    (hno : ∀ v, Op.put k v ∉ ops) : run view ops k = none := by
  induction ops generalizing view with
  | nil => exact h
  | cons op ops ih =>
    refine ih ?_ fun v hv => hno v (by simp [hv])
    cases op with
    | put k' v =>
      have hne : k ≠ k' := fun he => hno v (by simp [he])
      simp only [Op.apply, if_neg hne, h]
    | drop k' => simp only [Op.apply, h, ite_self]

/-- A key that comes out present after it was absent is present whatever it was. -/
theorem run_const {f : κ → Option ν} {k : κ} (h : f k = none) {ops : List (Op κ ν)}
    (hne : run f ops k ≠ none) (g : κ → Option ν) : run g ops k = run f ops k := by
  induction ops generalizing f g with
  | nil => exact absurd h hne
  | cons op ops ih =>
    by_cases hk : op.apply f k = none
    · exact ih hk hne (op.apply g)
    · -- `op` is what puts `k`, so the two maps agree on `k` after it
      refine run_congr ?_ ops
      cases op with
      | put k' v =>
        by_cases hkk : k = k'
        · simp only [Op.apply, if_pos hkk]
        · simp only [Op.apply, if_neg hkk, h, not_true_eq_false] at hk
      | drop k' => simp only [Op.apply, h, ite_self, not_true_eq_false] at hk

/-- A list of puts, none of which is taken back. -/
theorem run_puts {l : List (κ × ν)} (hnodup : (l.map Prod.fst).Nodup) (view : κ → Option ν) (k : κ) :
    (∀ v, (k, v) ∈ l → run view (l.map fun p => .put p.1 p.2) k = some v) ∧
    (k ∉ l.map Prod.fst → run view (l.map fun p => .put p.1 p.2) k = view k) := by
  induction l generalizing view with
  | nil => simp
  | cons p l ih =>
    rw [List.map_cons] at hnodup
    obtain ⟨hnew, hnodup⟩ := List.nodup_cons.1 hnodup
    obtain ⟨hmem, hnot⟩ := ih hnodup (Op.apply view (.put p.1 p.2))
    rw [List.map_cons, run_cons]
    constructor
    · intro v hv
      rcases List.mem_cons.1 hv with hv | hv
      · subst hv
        rw [hnot hnew]
        simp [Op.apply]
      · exact hmem v hv
    · intro hk
      rw [List.map_cons, List.mem_cons, not_or] at hk
      rw [hnot hk.2]
      simp only [Op.apply, if_neg hk.1]

/-- Once both sources have said everything, the replica shows `target`. -/
structure Settles (view : κ → Option ν) (fst snd : List (Op κ ν)) (target : κ → Option ν) :
    Prop where
  drops : ∀ op ∈ snd, ∃ k, op = .drop k
  /-- The second source has nothing to say about `k`. -/
  value : ∀ k, Op.drop k ∉ snd → run view fst k = target k
  /-- Either the drop is the news about `k`, or what the first source puts. -/
  dropped : ∀ k, Op.drop k ∈ snd → target k = none ∨ ∀ view', run view' fst k = target k

section Rules

variable {view target : κ → Option ν} {fst snd ops : List (Op κ ν)} {op : Op κ ν} {k : κ}

/-- Nothing is left to say. -/
theorem Settles.eq (h : Settles view [] [] target) : view = target :=
  funext fun k => h.value k (by simp)

/-- The replica is up to date, and what the second source says is old. -/
theorem settles_of_absent {snd : List (Op κ ν)} (hdrops : ∀ op ∈ snd, ∃ k, op = Op.drop k)
    (hnone : ∀ k, Op.drop k ∈ snd → target k = none) : Settles target [] snd target :=
  ⟨hdrops, fun _ _ => rfl, fun k hk => .inl (hnone k hk)⟩

/-- The first source says the next thing. -/
theorem Settles.arrive (h : Settles view (op :: fst) snd target)
    (hold : ∀ k v, op = .put k v → .drop k ∈ snd → target k = none) :
    Settles (op.apply view) fst snd target where
  drops := h.drops
  value := h.value
  dropped k hk := by
    by_cases hnone : target k = none
    · exact .inl hnone
    obtain hconst := (h.dropped k hk).resolve_left hnone
    right
    intro view'
    -- `op` leaves `k` alone or drops it, so the rest of `fst` puts it
    have habsent : op.apply (fun _ => none) k = none := by
      cases op with
      | put k' v =>
        by_cases hkk : k = k'
        · subst hkk
          exact absurd (hold k v rfl hk) hnone
        · simp only [Op.apply, if_neg hkk]
      | drop k' => simp only [Op.apply, ite_self]
    have hrest : run (op.apply fun _ => none) fst k = target k := hconst fun _ => none
    rw [← hrest]
    exact run_const habsent (by rw [hrest]; exact hnone) view'

theorem Settles.arrives (h : Settles view (ops ++ fst) snd target)
    (hold : ∀ k v, .put k v ∈ ops → .drop k ∈ snd → target k = none) :
    Settles (run view ops) fst snd target := by
  induction ops generalizing view with
  | nil => exact h
  | cons op ops ih =>
    have hop : ∀ k v, op = .put k v → .drop k ∈ snd → target k = none :=
      fun k v hput => hold k v (by simp [hput])
    exact ih (h.arrive hop) fun k v hput => hold k v (by simp [hput])

/-- The second source says the next thing. -/
theorem Settles.slip (h : Settles view fst (op :: snd) target)
    (hold : ∀ k, op = .drop k → target k = none → ∀ v, .put k v ∉ fst) :
    Settles (op.apply view) fst snd target := by
  obtain ⟨k, rfl⟩ := h.drops op (by simp)
  refine ⟨fun op hop => h.drops op (by simp [hop]), fun x hx => ?_,
    fun x hx => h.dropped x (by simp [hx])⟩
  by_cases hxk : x = k
  · subst hxk
    rcases h.dropped x (by simp) with hnone | hconst
    · rw [hnone]
      exact run_eq_none (by simp [Op.apply]) (hold x rfl hnone)
    · exact hconst _
  · rw [← h.value x (by simp [hxk, hx])]
    exact run_congr (by simp only [Op.apply, if_neg hxk]) fst

theorem Settles.slips (h : Settles view fst (ops ++ snd) target)
    (hold : ∀ k, .drop k ∈ ops → target k = none → ∀ v, .put k v ∉ fst) :
    Settles (run view ops) fst snd target := by
  induction ops generalizing view with
  | nil => exact h
  | cons op ops ih =>
    have hop : ∀ k, op = .drop k → target k = none → ∀ v, .put k v ∉ fst :=
      fun k hdrop => hold k (by simp [hdrop])
    exact ih (h.slip hop) fun k hdrop => hold k (by simp [hdrop])

/-- The original changes and the first source will say so. -/
theorem Settles.extend (h : Settles view [] snd target) (ops : List (Op κ ν)) :
    Settles view ops snd (run target ops) where
  drops := h.drops
  value k hk := run_congr (h.value k hk) ops
  dropped k hk := by
    have habsent : target k = none := by
      rcases h.dropped k hk with hnone | hconst
      · exact hnone
      · exact (hconst fun _ => none).symm
    by_cases hnone : run target ops k = none
    · exact .inl hnone
    · exact .inr fun view' => run_const habsent hnone view'

/-- Keys leave the original and the second source will say so. -/
theorem Settles.sweep (h : Settles view fst [] target) {ks : List κ} {target' : κ → Option ν}
    (htarget : ∀ k, target' k = if k ∈ ks then none else target k) :
    Settles view fst (ks.map Op.drop) target' where
  drops op hop := by
    obtain ⟨k, -, rfl⟩ := List.mem_map.1 hop
    exact ⟨k, rfl⟩
  value k hk := by
    have hk' : k ∉ ks := fun h' => hk (List.mem_map.2 ⟨k, h', rfl⟩)
    rw [htarget, if_neg hk', h.value k (by simp)]
  dropped k hk := by
    obtain ⟨k', hk', heq⟩ := List.mem_map.1 hk
    obtain rfl : k' = k := by cases heq; rfl
    exact .inl (by rw [htarget, if_pos hk'])

end Rules

end Replica
