import Mathlib.Tactic

/-!
# Guarded transition systems

`step s e` is the state after event `e`; `ok s e` says that the event can happen in
state `s`.  `Reachable step ok init` are the states of all finite runs, and
`Reachable.invariant` is the rule by which every safety result about them is proved.
`Run` is a whole run with its states and events by number, for statements that compare
two moments of it; `Run.exists_begins` makes one from a list of events.
-/

namespace Trace

variable {σ ε : Type*} {step : σ → ε → σ} {ok : σ → ε → Prop} {init : σ → Prop}

/-- The states of the runs from an initial state through events that can happen. -/
inductive Reachable (step : σ → ε → σ) (ok : σ → ε → Prop) (init : σ → Prop) : σ → Prop
  | start {s} (h : init s) : Reachable step ok init s
  | next {s} (e : ε) (h : Reachable step ok init s) (he : ok s e) : Reachable step ok init (step s e)

/-- What holds initially and is kept by every possible event holds in every reachable state. -/
theorem Reachable.invariant {P : σ → Prop} {s : σ} (h : Reachable step ok init s)
    (hinit : ∀ s, init s → P s) (hstep : ∀ s e, ok s e → P s → P (step s e)) : P s := by
  induction h with
  | start h => exact hinit _ h
  | next e _ he ih => exact hstep _ e he ih

/-- A run of a more permissive system. -/
theorem Reachable.mono {ok' : σ → ε → Prop} {s : σ} (h : Reachable step ok init s)
    (hok : ∀ s e, ok s e → ok' s e) : Reachable step ok' init s := by
  induction h with
  | start h => exact .start h
  | next e _ he ih => exact ih.next e (hok _ _ he)

/-- A run goes on from where another one has come. -/
theorem Reachable.trans {s s' : σ} (h : Reachable step ok init s)
    (h' : Reachable step ok (· = s) s') : Reachable step ok init s' := by
  induction h' with
  | start heq => exact heq ▸ h
  | next e _ he ih => exact ih.next e he

/-- Every event of the list can happen when its turn comes. -/
def Allowed (step : σ → ε → σ) (ok : σ → ε → Prop) : σ → List ε → Prop
  | _, [] => True
  | s, e :: events => ok s e ∧ Allowed step ok (step s e) events

instance Allowed.decidable [∀ s, DecidablePred (ok s)] :
    (s : σ) → (events : List ε) → Decidable (Allowed step ok s events)
  | _, [] => inferInstanceAs (Decidable True)
  | s, e :: events =>
    have := Allowed.decidable (step s e) events
    inferInstanceAs (Decidable (ok s e ∧ Allowed step ok (step s e) events))

/-- The state at the end of a list of events that can happen one after the other. -/
theorem Reachable.foldl {s : σ} (h : Reachable step ok init s) (events : List ε)
    (hok : Allowed step ok s events) : Reachable step ok init (events.foldl step s) := by
  induction events generalizing s with
  | nil => exact h
  | cons e events ih => exact ih (h.next e hok.1) hok.2

theorem Allowed.of_forall {events : List ε} (h : ∀ e ∈ events, ∀ s, ok s e) (s : σ) :
    Allowed step ok s events := by
  induction events generalizing s with
  | nil => trivial
  | cons e events ih => exact ⟨h e (by simp) s, ih (fun e he => h e (by simp [he])) _⟩

theorem Allowed.get {s : σ} {events : List ε} (h : Allowed step ok s events) {m : ℕ} {e : ε}
    (he : events[m]? = some e) : ok ((events.take m).foldl step s) e := by
  induction events generalizing s m with
  | nil => cases he
  | cons e' events ih =>
    cases m with
    | zero =>
      obtain rfl : e' = e := by simpa using he
      exact h.1
    | succ m => exact ih h.2 (by simpa using he)

/-- The events can happen one after the other, and lead from `s` to `s'`. -/
structure Leads (step : σ → ε → σ) (ok : σ → ε → Prop) (s : σ) (events : List ε) (s' : σ) : Prop where
  allowed : Allowed step ok s events
  state : events.foldl step s = s'

theorem Leads.nil (s : σ) : Leads step ok s [] s := ⟨trivial, rfl⟩

theorem Leads.concat {s s' : σ} {events : List ε} (h : Leads step ok s events s') {e : ε}
    (he : ok s' e) {s'' : σ} (hs : step s' e = s'') : Leads step ok s (events ++ [e]) s'' := by
  obtain ⟨hall, hstate⟩ := h
  constructor
  · induction events generalizing s with
    | nil => exact ⟨(show s = s' from hstate) ▸ he, trivial⟩
    | cons e' events ih => exact ⟨hall.1, ih hall.2 hstate⟩
  · rw [List.foldl_append, hstate]
    exact hs

theorem Leads.reachable {s s' : σ} {events : List ε} (h : Leads step ok s events s') (hs : init s) :
    Reachable step ok init s' :=
  h.state ▸ (Reachable.start hs).foldl events h.allowed

/-- Every reachable state is at the end of such a list. -/
theorem Reachable.exists_leads {s : σ} (h : Reachable step ok init s) :
    ∃ s₀ events, init s₀ ∧ Leads step ok s₀ events s := by
  induction h with
  | @start s h => exact ⟨s, [], h, .nil s⟩
  | next e _ he ih =>
    obtain ⟨s₀, events, hs₀, hleads⟩ := ih
    exact ⟨s₀, events ++ [e], hs₀, hleads.concat he rfl⟩

/-- A run: what state it is in before the `k`-th event, and that event. -/
structure Run (step : σ → ε → σ) (ok : σ → ε → Prop) (init : σ → Prop) where
  state : ℕ → σ
  event : ℕ → ε
  start : init (state 0)
  allowed : ∀ k, ok (state k) (event k)
  next : ∀ k, state (k + 1) = step (state k) (event k)

theorem Run.reachable (r : Run step ok init) (k : ℕ) : Reachable step ok init (r.state k) := by
  induction k with
  | zero => exact .start r.start
  | succ k ih => rw [r.next]; exact ih.next _ (r.allowed k)

/-- The state before the `k`-th event. -/
def stateAt (step : σ → ε → σ) (s : σ) (event : ℕ → ε) : ℕ → σ
  | 0 => s
  | k + 1 => step (stateAt step s event k) (event k)

/-- The run from `s` through the events of `event`. -/
def Run.ofEvents (s : σ) (event : ℕ → ε) (hs : init s)
    (hok : ∀ k, ok (stateAt step s event k) (event k)) : Run step ok init where
  state := stateAt step s event
  event := event
  start := hs
  allowed := hok
  next _ := rfl

/-- The run begins with these events, which lead to `s'`. -/
structure Run.Begins (r : Run step ok init) (events : List ε) (s' : σ) : Prop where
  state : r.state events.length = s'
  event : ∀ m e, events[m]? = some e → r.event m = e

theorem Run.Begins.mem {r : Run step ok init} {events : List ε} {s' : σ} (h : r.Begins events s')
    {m : ℕ} (hm : m < events.length) : r.event m ∈ events := by
  rw [h.event m _ (List.getElem?_eq_getElem hm)]
  exact List.getElem_mem hm

/-- A list of events that can happen one after the other begins a run, if there is an event that can
always happen. -/
theorem Run.exists_begins {s : σ} (hs : init s) {events : List ε} (h : Allowed step ok s events)
    {idle : ε} (hidle : ∀ s, ok s idle) :
    ∃ r : Run step ok init, ∀ pre post, events = pre ++ post → r.Begins pre (pre.foldl step s) := by
  let event (m : ℕ) : ε := events.getD m idle
  have hevent : ∀ m e, events[m]? = some e → event m = e := fun m e he => by
    simp [event, he]
  have hstate : ∀ m ≤ events.length, stateAt step s event m = (events.take m).foldl step s := by
    intro m
    induction m with
    | zero => exact fun _ => rfl
    | succ m ih =>
      intro hm
      obtain ⟨e, he⟩ : ∃ e, events[m]? = some e := ⟨_, List.getElem?_eq_getElem hm⟩
      rw [stateAt, ih (by omega), hevent m e he, List.take_add_one, he, List.foldl_append]
      rfl
  have hok : ∀ m, ok (stateAt step s event m) (event m) := by
    intro m
    cases he : events[m]? with
    | none =>
      rw [show event m = idle by simp [event, he]]
      exact hidle _
    | some e =>
      have hm : m < events.length := (List.getElem?_eq_some_iff.1 he).1
      rw [hstate m hm.le, hevent m e he]
      exact h.get he
  refine ⟨.ofEvents s event hs hok, fun pre post heq => ⟨?_, fun m e he => hevent m e ?_⟩⟩
  · have hlen : pre.length ≤ events.length := by simp [heq]
    exact (hstate _ hlen).trans (by rw [heq, List.take_left])
  · rw [heq, List.getElem?_append_left (List.getElem?_eq_some_iff.1 he).1, he]

/-- A reachable state lies on a run that goes on with any event that can happen there, if there is
an event that can always happen. -/
theorem Reachable.exists_run {s : σ} (h : Reachable step ok init s) {idle : ε}
    (hidle : ∀ s, ok s idle) {e : ε} (he : ok s e) :
    ∃ r : Run step ok init, ∃ k, r.state k = s ∧ r.event k = e := by
  obtain ⟨s₀, events, hs₀, hleads⟩ := h.exists_leads
  obtain ⟨r, hbegins⟩ := Run.exists_begins hs₀ (hleads.concat he rfl).allowed hidle
  refine ⟨r, events.length, (hbegins events [e] rfl).state.trans hleads.state, ?_⟩
  exact (hbegins (events ++ [e]) [] (List.append_nil _).symm).event events.length e (by simp)

end Trace
