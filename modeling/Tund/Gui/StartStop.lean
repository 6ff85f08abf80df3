import Tund.Gui.Launcher

/-!
# One child at a time, and stops that are not lost

`StartStopSafe` is what the window promises.  It can be broken by a Stop that is pressed
while a start is still on its way to its process, by two starts that are confirmed one
behind the other, and by a child that exits before the key is written; in the runs
without these events (`Patient`) at most one call is busy at a time, which is the
invariant `Supervised`.
-/

namespace Tund

/-- What the window promises about starting and stopping. -/
structure StartStopSafe (g : Gui) : Prop where
  one_child : ∀ i j, g.alive i → g.alive j → i = j
  running_iff : g.launcherRunning = true ↔ ∃ i, g.alive i
  stop_kept : ∀ a ∈ g.attempts, a.revived = false

/-- Stop is not pressed during a start, the privileges are not confirmed for a second start
while the first is under way, and no child exits before its key is written. -/
def Patient (g : Gui) : GuiEvent → Prop
  | .stop _ => g.status ≠ .starting
  | .confirmed _ accepted => accepted = true → g.running = false
  | .exited i _ => g.isAt i .waiting
  | _ => True

instance (g : Gui) : (e : GuiEvent) → Decidable (Patient g e)
  | .stop _ => inferInstanceAs (Decidable (g.status ≠ .starting))
  | .confirmed _ accepted => inferInstanceAs (Decidable (accepted = true → g.running = false))
  | .exited i _ => inferInstanceAs (Decidable (g.isAt i .waiting))
  | .start _ | .checked _ _ | .spawned _ _ | .written _ _ | .stopFlushed _ _ | .stopTimeout _
  | .dispose _ => inferInstanceAs (Decidable True)

/-- A call that the launcher has nothing to do with: it has not confirmed yet, or it is over. -/
structure Attempt.Idle (a : Attempt) : Prop where
  phase : a.phase = .confirming ∨ a.phase.Over
  dead : a.child ≠ .alive
  unasked : a.phase = .confirming → a.stopAsked = false
  kept : a.revived = false

/-- The call that the window is busy with: before its process, at the key, and from there
until the process exits. -/
inductive Gui.Leads (g : Gui) (i : ℕ) (a : Attempt) : Prop
  | preparing (hphase : a.phase = .checking ∨ a.phase = .spawning) (hchild : a.child ≠ .alive)
      (hprocess : g.process = none) (hasked : a.stopAsked = false)
      (hstatus : g.disposed = false → g.status = .starting)
  | writing (hphase : a.phase = .writing) (hchild : a.child = .alive) (hprocess : g.process = some i)
      (hasked : a.stopAsked = false) (hstatus : g.disposed = false → g.status = .starting)
  | spawned (hphase : a.phase = .waiting ∨ a.phase.Over) (hchild : a.child = .alive)
      (hprocess : g.process = some i)

/-- A change that keeps what the busy call is about. -/
theorem Gui.Leads.copy {g g' : Gui} {i : ℕ} {a b : Attempt} (h : g.Leads i a)
    (hphase : b.phase = a.phase) (hchild : b.child = a.child) (hasked : b.stopAsked = a.stopAsked)
    (hprocess : g'.process = g.process)
    (hstatus : g'.disposed = false → g.disposed = false ∧ g'.status = g.status) : g'.Leads i b := by
  cases h with
  | preparing h₁ h₂ h₃ h₄ h₅ =>
    refine .preparing (hphase ▸ h₁) (hchild ▸ h₂) (hprocess ▸ h₃) (hasked ▸ h₄) fun hd => ?_
    rw [(hstatus hd).2, h₅ (hstatus hd).1]
  | writing h₁ h₂ h₃ h₄ h₅ =>
    refine .writing (hphase ▸ h₁) (hchild ▸ h₂) (hprocess ▸ h₃) (hasked ▸ h₄) fun hd => ?_
    rw [(hstatus hd).2, h₅ (hstatus hd).1]
  | spawned h₁ h₂ h₃ => exact .spawned (hphase ▸ h₁) (hchild ▸ h₂) (hprocess ▸ h₃)

/-- Every call but the `i`-th is idle. -/
def Gui.OthersIdle (g : Gui) (i : ℕ) : Prop :=
  ∀ (j : ℕ) (a : Attempt), g.attempts[j]? = some a → j ≠ i → a.Idle

/-- The invariant of the runs of `Patient` events: no call is busy, or one. -/
inductive Supervised (g : Gui) : Prop
  | idle (hidle : ∀ a ∈ g.attempts, a.Idle) (hprocess : g.process = none)
  | busy (i : ℕ) (a : Attempt) (ha : g.attempts[i]? = some a) (hothers : g.OthersIdle i)
      (hkept : a.revived = false) (hleads : g.Leads i a)

theorem Supervised.init : Supervised Gui.init :=
  .idle (by simp [Gui.init]) rfl

/-- A call that is not idle is the one that the window is busy with. -/
theorem Supervised.leads {g : Gui} (h : Supervised g) {i : ℕ} {a : Attempt}
    (ha : g.attempts[i]? = some a) (hnot : ¬ a.Idle) :
    g.OthersIdle i ∧ a.revived = false ∧ g.Leads i a := by
  cases h with
  | idle hidle hprocess => exact absurd (hidle a (List.mem_of_getElem? ha)) hnot
  | busy j b hb hothers hkept hleads =>
    by_cases hij : i = j
    · subst hij
      rw [ha, Option.some.injEq] at hb
      subst hb
      exact ⟨hothers, hkept, hleads⟩
    · exact absurd (hothers i a ha hij) hnot

theorem Gui.OthersIdle.modify {g : Gui} {i : ℕ} (h : g.OthersIdle i) (f : Attempt → Attempt) :
    (g.modify i f).OthersIdle i := by
  intro j a ha hij
  rw [Gui.getElem?_modify, Option.map_eq_some_iff] at ha
  obtain ⟨b, hb, rfl⟩ := ha
  rw [if_neg (Ne.symm hij)]
  exact h j b hb hij

/-- The busy call comes to its end without a process. -/
theorem Gui.OthersIdle.settle {g : Gui} {i : ℕ} {a : Attempt} {f : Attempt → Attempt}
    (h : g.OthersIdle i) (ha : g.attempts[i]? = some a) (hf : (f a).Idle) :
    ∀ b ∈ (g.modify i f).attempts, b.Idle := by
  intro b hb
  obtain ⟨j, hj⟩ := List.getElem?_of_mem hb
  by_cases hij : j = i
  · subst hij
    rw [Gui.getElem?_modify, ha, Option.map_some, if_pos rfl, Option.some.injEq] at hj
    exact hj ▸ hf
  · exact h.modify f j b hj hij

/-- The busy call goes on. -/
theorem Supervised.ofLeads {g : Gui} {i : ℕ} {a : Attempt} {f : Attempt → Attempt}
    (ha : g.attempts[i]? = some a) (hothers : g.OthersIdle i) (hkept : (f a).revived = false)
    (hleads : (g.modify i f).Leads i (f a)) : Supervised (g.modify i f) := by
  refine .busy i (f a) ?_ (hothers.modify f) hkept hleads
  rw [Gui.getElem?_modify, ha, Option.map_some, if_pos rfl]

/-- A change of a call that keeps it idle, or the busy one. -/
theorem Supervised.modify {g : Gui} (h : Supervised g) {i : ℕ} {f : Attempt → Attempt}
    (hidle : ∀ a, g.attempts[i]? = some a → a.Idle → (f a).Idle)
    (hleads : ∀ a, g.attempts[i]? = some a → g.Leads i a → a.revived = false →
      (f a).revived = false ∧ (g.modify i f).Leads i (f a)) : Supervised (g.modify i f) := by
  -- The calls other than the busy one.
  have hrest : ∀ (j : ℕ) (b : Attempt), (g.modify i f).attempts[j]? = some b →
      (∀ a, g.attempts[j]? = some a → a.Idle) → b.Idle := by
    intro j b hb hj
    rw [Gui.getElem?_modify, Option.map_eq_some_iff] at hb
    obtain ⟨a, ha, rfl⟩ := hb
    split
    · next hij =>
      subst hij
      exact hidle a ha (hj a ha)
    · exact hj a ha
  cases h with
  | idle hall hprocess =>
    refine .idle (fun b hb => ?_) hprocess
    obtain ⟨j, hj⟩ := List.getElem?_of_mem hb
    exact hrest j b hj fun a ha => hall a (List.mem_of_getElem? ha)
  | busy k c hc hothers hkept hlead =>
    have hothers' : (g.modify i f).OthersIdle k :=
      fun j b hb hjk => hrest j b hb fun a ha => hothers j a ha hjk
    by_cases hik : i = k
    · subst hik
      obtain ⟨hkept', hlead'⟩ := hleads c hc hlead hkept
      exact .ofLeads hc hothers hkept' hlead'
    · refine .busy k c ?_ hothers' hkept (hlead.copy rfl rfl rfl rfl fun hd => ⟨hd, rfl⟩)
      rw [Gui.getElem?_modify, hc, Option.map_some, if_neg hik]

/-- What is sent to a process changes nothing else. -/
theorem Supervised.send {g : Gui} (h : Supervised g) (i : ℕ) (s : Signal) :
    Supervised (g.modify i fun a => { a with signals := a.signals ++ [s] }) := by
  apply h.modify
  · exact fun a _ ha => ⟨ha.phase, ha.dead, ha.unasked, ha.kept⟩
  · exact fun a _ ha hkept => ⟨hkept, ha.copy rfl rfl rfl rfl fun hd => ⟨hd, rfl⟩⟩

/-- `stop` of the launcher only sends something. -/
theorem Supervised.launcherStop {g : Gui} (h : Supervised g) (written : Bool) :
    Supervised (g.launcherStop written) := by
  unfold Gui.launcherStop
  split
  · exact h
  · exact h.send _ _

theorem Supervised.stopTund {g : Gui} (h : Supervised g) (written : Bool)
    (hopen : g.disposed = false) (hrunning : g.running = true) (hstatus : g.status ≠ .starting) :
    Supervised (g.stopTund written) := by
  have hsome : g.process ≠ none := by
    intro hnone
    simp [Gui.running, Gui.launcherRunning, hnone, hstatus] at hrunning
  apply Supervised.launcherStop
  cases h with
  | idle _ hprocess => exact absurd hprocess hsome
  | busy i a ha hothers hkept hleads =>
    refine .busy i { a with stopAsked := a.stopAsked || a.underWay } ?_ ?_ hkept ?_
    · simp [ha]
    · intro j b hb hij
      simp only [List.getElem?_map, Option.map_eq_some_iff] at hb
      obtain ⟨c, hc, rfl⟩ := hb
      have hc := hothers j c hc hij
      refine ⟨hc.phase, hc.dead, ?_, hc.kept⟩
      intro hconfirming
      show (c.stopAsked || c.underWay) = false
      rw [hc.unasked hconfirming, Attempt.underWay, show c.phase = .confirming from hconfirming]
      rfl
    · cases hleads with
      | preparing _ _ hprocess => exact absurd hprocess hsome
      | writing _ _ _ _ hstart => exact absurd (hstart hopen) hstatus
      | spawned hphase hchild hprocess => exact .spawned hphase hchild hprocess

theorem Supervised.dispose {g : Gui} (h : Supervised g) : Supervised { g with disposed := true } := by
  cases h with
  | idle hall hprocess => exact .idle hall hprocess
  | busy i a ha hothers hkept hleads =>
    exact .busy i a ha hothers hkept (hleads.copy rfl rfl rfl rfl nofun)

@[simp] theorem Gui.failWithGuidance_attempts (g : Gui) (title : String) :
    (g.failWithGuidance title).attempts = g.attempts := by
  unfold Gui.failWithGuidance
  split <;> rfl

@[simp] theorem Gui.failWithGuidance_process (g : Gui) (title : String) :
    (g.failWithGuidance title).process = g.process := by
  unfold Gui.failWithGuidance
  split <;> rfl

@[simp] theorem Gui.completeExit_attempts (g : Gui) (code : ℤ) :
    (g.completeExit code).attempts = g.attempts := by
  unfold Gui.completeExit
  split <;> rfl

@[simp] theorem Gui.completeExit_process (g : Gui) (code : ℤ) :
    (g.completeExit code).process = g.process := by
  unfold Gui.completeExit
  split <;> rfl

/-- The phases in which a call is not idle. -/
theorem Attempt.not_idle {a : Attempt} {phase : StartPhase} (hphase : a.phase = phase)
    (hbusy : phase ≠ .confirming ∧ ¬ phase.Over) : ¬ a.Idle := by
  intro hidle
  have h := hidle.phase
  rw [hphase] at h
  exact h.elim hbusy.1 hbusy.2

/-- What is known of a call before it has a process. -/
theorem Supervised.preparing {g : Gui} (h : Supervised g) {i : ℕ} {a : Attempt}
    (ha : g.attempts[i]? = some a) (hphase : a.phase = .checking ∨ a.phase = .spawning) :
    g.OthersIdle i ∧ a.revived = false ∧ a.child ≠ .alive ∧ g.process = none ∧ a.stopAsked = false ∧
      (g.disposed = false → g.status = .starting) := by
  have hnot : ¬ a.Idle := by
    rcases hphase with hphase | hphase
    · exact Attempt.not_idle hphase ⟨nofun, nofun⟩
    · exact Attempt.not_idle hphase ⟨nofun, nofun⟩
  obtain ⟨hothers, hkept, hleads⟩ := h.leads ha hnot
  cases hleads with
  | preparing _ hchild hprocess hasked hstatus =>
    exact ⟨hothers, hkept, hchild, hprocess, hasked, hstatus⟩
  | writing hwriting => simp [hwriting] at hphase
  | spawned hspawned => rcases hphase with hphase | hphase <;> simp [hphase, StartPhase.Over] at hspawned

/-- The busy call gets an exception before it has a process. -/
theorem Supervised.failStart {g : Gui} (h : Supervised g) {i : ℕ} {a : Attempt}
    (ha : g.attempts[i]? = some a) (hphase : a.phase = .checking ∨ a.phase = .spawning)
    (error : LaunchError) : Supervised (g.failStart i error) := by
  obtain ⟨hothers, hkept, hchild, hprocess, -⟩ := h.preparing ha hphase
  unfold Gui.failStart
  refine .idle ?_ (by rw [Gui.failWithGuidance_process]; exact hprocess)
  rw [Gui.failWithGuidance_attempts]
  exact hothers.settle ha ⟨.inr trivial, hchild, nofun, hkept⟩

theorem Supervised.confirmed {g : Gui} (h : Supervised g) {i : ℕ} (hat : g.isAt i .confirming)
    (accepted : Bool) (hp : accepted = true → g.running = false) :
    Supervised (guiStep g (.confirmed i accepted)) := by
  obtain ⟨a, ha, hphase⟩ := Option.map_eq_some_iff.mp hat
  simp only [guiStep]
  split
  · apply h.modify
    · exact fun b _ hb => ⟨.inr trivial, hb.dead, nofun, hb.kept⟩
    · intro b hb hleads
      rw [ha, Option.some.injEq] at hb
      subst hb
      cases hleads <;> simp_all [StartPhase.Over]
  · next hgo =>
    obtain ⟨haccepted, hopen⟩ : accepted = true ∧ g.disposed = false := by simpa using hgo
    have hrunning := hp haccepted
    simp only [Gui.running, Gui.launcherRunning, Bool.or_eq_false_iff, beq_eq_false_iff_ne, ne_eq,
      Option.isSome_eq_false_iff, Option.isNone_iff_eq_none] at hrunning
    obtain ⟨hstatus, hprocess⟩ := hrunning
    have hall : ∀ b ∈ g.attempts, b.Idle := by
      cases h with
      | idle hall _ => exact hall
      | busy j b hb hothers hkept hleads =>
        cases hleads with
        | preparing _ _ _ _ hstart => exact absurd (hstart hopen) hstatus
        | writing _ _ hsome => simp [hprocess] at hsome
        | spawned _ _ hsome => simp [hprocess] at hsome
    have hidle := hall a (List.mem_of_getElem? ha)
    rw [Gui.launcherStart, if_neg (by simp [Gui.launcherRunning, Gui.prepareStart, hprocess])]
    refine Supervised.ofLeads (g := g.prepareStart) ha ?_ hidle.kept ?_
    · exact fun j b hb _ => hall b (List.mem_of_getElem? hb)
    · exact .preparing (.inl rfl) hidle.dead hprocess (hidle.unasked hphase) fun _ => rfl

theorem Supervised.spawned {g : Gui} (h : Supervised g) {i : ℕ} (hat : g.isAt i .spawning) (ok : Bool) :
    Supervised (guiStep g (.spawned i ok)) := by
  obtain ⟨a, ha, hphase⟩ := Option.map_eq_some_iff.mp hat
  cases ok with
  | false => exact h.failStart ha (.inr hphase) _
  | true =>
    obtain ⟨hothers, hkept, -, -, hasked, hstatus⟩ := h.preparing ha (.inr hphase)
    exact Supervised.ofLeads (g := { g with process := some i, stdout := some i, stderr := some i }) ha
      hothers hkept (.writing rfl rfl rfl hasked hstatus)

/-- What is known of a call while the key is written. -/
theorem Supervised.writing {g : Gui} (h : Supervised g) {i : ℕ} {a : Attempt}
    (ha : g.attempts[i]? = some a) (hphase : a.phase = .writing) :
    g.OthersIdle i ∧ a.revived = false ∧ a.child = .alive ∧ g.process = some i ∧ a.stopAsked = false := by
  obtain ⟨hothers, hkept, hleads⟩ := h.leads ha (Attempt.not_idle hphase ⟨nofun, nofun⟩)
  cases hleads with
  | preparing hpreparing => simp [hphase] at hpreparing
  | writing _ hchild hprocess hasked _ => exact ⟨hothers, hkept, hchild, hprocess, hasked⟩
  | spawned hspawned => simp [hphase, StartPhase.Over] at hspawned

theorem Supervised.written {g : Gui} (h : Supervised g) {i : ℕ} (hat : g.isAt i .writing) (ok : Bool) :
    Supervised (guiStep g (.written i ok)) := by
  obtain ⟨a, ha, hphase⟩ := Option.map_eq_some_iff.mp hat
  obtain ⟨hothers, hkept, hchild, hprocess, hasked⟩ := h.writing ha hphase
  cases ok with
  | true =>
    have hstep : guiStep g (.written i true) =
        (g.markRunning i).modify i fun a => { a with phase := .waiting } := by
      simp [guiStep, Gui.keyWritten, ha, hchild]
    -- Nobody has asked for a stop, so the call is not marked.
    have hmark : (g.markRunning i).attempts[i]? = some a ∧ (g.markRunning i).OthersIdle i ∧
        (g.markRunning i).process = some i := by
      unfold Gui.markRunning
      split
      · exact ⟨ha, hothers, hprocess⟩
      · refine ⟨?_, Gui.OthersIdle.modify (g := { g with status := .running }) hothers _, hprocess⟩
        have hsame : (a.revived || a.stopAsked) = a.revived := by rw [hasked, Bool.or_false]
        rw [Gui.getElem?_modify]
        show (g.attempts[i]?).map _ = some a
        rw [ha, Option.map_some, if_pos rfl, hsame]
    rw [hstep]
    exact .ofLeads hmark.1 hmark.2.1 hkept (.spawned (.inl rfl) hchild hmark.2.2)
  | false =>
    show Supervised (((g.modify i _).modify i _).failWithGuidance _)
    refine .busy i { a with signals := a.signals ++ [.kill], phase := .failed .keyNotSent } ?_ ?_ hkept ?_
    · rw [Gui.failWithGuidance_attempts, Gui.getElem?_modify, Gui.getElem?_modify, ha]
      simp
    · unfold Gui.OthersIdle
      rw [Gui.failWithGuidance_attempts]
      exact (hothers.modify _).modify _
    · exact .spawned (.inr trivial) hchild (by rw [Gui.failWithGuidance_process]; exact hprocess)

theorem Supervised.exited {g : Gui} (h : Supervised g) {i : ℕ} (hat : g.isAt i .waiting) (code : ℤ) :
    Supervised (guiStep g (.exited i code)) := by
  obtain ⟨a, ha, hphase⟩ := Option.map_eq_some_iff.mp hat
  obtain ⟨hothers, hkept, -⟩ := h.leads ha (Attempt.not_idle hphase ⟨nofun, nofun⟩)
  have hat : (g.attempts[i]?).map Attempt.phase = some .waiting := hat
  simp only [guiStep, Gui.processExited, hat, Gui.finish]
  refine .idle ?_ (by rw [Gui.completeExit_process]; rfl)
  rw [Gui.completeExit_attempts]
  exact Gui.OthersIdle.settle (g := { g with stdout := none, stderr := none, process := none }) hothers ha
    ⟨.inr trivial, nofun, nofun, hkept⟩

theorem Supervised.step {g : Gui} {e : GuiEvent} (h : Supervised g) (hcan : GuiCan g e)
    (hp : Patient g e) : Supervised (guiStep g e) := by
  cases e with
  | start config =>
    simp only [guiStep]
    split
    · exact h
    · cases h with
      | idle hall hprocess =>
        refine .idle (fun b hb => ?_) hprocess
        rcases List.mem_append.mp hb with hb | hb
        · exact hall b hb
        · rw [List.mem_singleton.mp hb]
          exact ⟨.inl rfl, nofun, fun _ => rfl, rfl⟩
      | busy i a ha hothers hkept hleads =>
        have hlt := (List.getElem?_eq_some_iff.mp ha).1
        refine .busy i a ?_ (fun j b hb hij => ?_) hkept (hleads.copy rfl rfl rfl rfl fun hd => ⟨hd, rfl⟩)
        · rw [List.getElem?_append_left hlt, ha]
        · by_cases hj : j < g.attempts.length
          · rw [List.getElem?_append_left hj] at hb
            exact hothers j b hb hij
          · rw [List.getElem?_append_right (by omega)] at hb
            have hb := List.mem_singleton.mp (List.mem_of_getElem? hb)
            rw [hb]
            exact ⟨.inl rfl, nofun, fun _ => rfl, rfl⟩
  | stop written => exact h.stopTund written hcan.1 hcan.2 hp
  | confirmed i accepted => exact h.confirmed hcan accepted hp
  | checked i result =>
    obtain ⟨a, ha, hphase⟩ := Option.map_eq_some_iff.mp hcan
    simp only [guiStep]
    split
    · obtain ⟨hothers, hkept, hchild, hprocess, hasked, hstatus⟩ := h.preparing ha (.inl hphase)
      exact .ofLeads ha hothers hkept (.preparing (.inr rfl) hchild hprocess hasked hstatus)
    · exact h.failStart ha (.inl hphase) _
  | spawned i ok => exact h.spawned hcan ok
  | written i ok => exact h.written hcan ok
  | exited i code => exact h.exited hp code
  | stopFlushed i ok =>
    cases ok with
    | true => exact h
    | false => exact h.send i _
  | stopTimeout i =>
    simp only [guiStep]
    split
    · exact h.send i _
    · exact h
  | dispose written => exact h.dispose.launcherStop written

/-- The launcher has the process of the child that is alive. -/
theorem Supervised.alive_iff {g : Gui} (h : Supervised g) (i : ℕ) : g.alive i ↔ g.process = some i := by
  have hof : ∀ {j : ℕ}, g.alive j → ∃ a, g.attempts[j]? = some a ∧ a.child = .alive :=
    fun ha => Option.map_eq_some_iff.mp ha
  cases h with
  | idle hall hprocess =>
    rw [hprocess]
    refine ⟨fun ha => ?_, nofun⟩
    obtain ⟨a, ha, hchild⟩ := hof ha
    exact absurd hchild (hall a (List.mem_of_getElem? ha)).dead
  | busy k a ha hothers hkept hleads =>
    by_cases hik : i = k
    · subst hik
      have hchild : g.alive i ↔ a.child = .alive := by
        simp [Gui.alive, ha]
      rw [hchild]
      cases hleads with
      | preparing _ hdead hprocess => simp [hdead, hprocess]
      | writing _ hlive hprocess => simp [hlive, hprocess]
      | spawned _ hlive hprocess => simp [hlive, hprocess]
    · have hdead : ¬ g.alive i := by
        intro hi
        obtain ⟨b, hb, hchild⟩ := hof hi
        exact (hothers i b hb hik).dead hchild
      have hprocess : g.process = none ∨ g.process = some k := by
        cases hleads with
        | preparing _ _ hprocess => exact .inl hprocess
        | writing _ _ hprocess => exact .inr hprocess
        | spawned _ _ hprocess => exact .inr hprocess
      rcases hprocess with hprocess | hprocess <;> simp [hdead, hprocess, Ne.symm hik]

/-- What the invariant says about the children and the stops. -/
theorem Supervised.safe {g : Gui} (h : Supervised g) : StartStopSafe g := by
  constructor
  · intro i j hi hj
    rw [h.alive_iff] at hi hj
    exact Option.some.inj (hi.symm.trans hj)
  · simp only [h.alive_iff, Gui.launcherRunning, Option.isSome_iff_exists]
  · intro a ha
    obtain ⟨i, hi⟩ := List.getElem?_of_mem ha
    by_cases hidle : a.Idle
    · exact hidle.kept
    · exact (h.leads hi hidle).2.1

/-- In the runs of `Patient` events there is at most one child, the launcher runs while it
is alive, and no start goes on to running after a stop. -/
theorem start_stop_safe {g : Gui} (h : GuiReachable Patient g) : StartStopSafe g := by
  have hsupervised : Supervised g := by
    apply h.invariant
    · rintro g rfl
      exact .init
    · exact fun g e hok h => h.step hok.1 hok.2
  exact hsupervised.safe

/-- A start, a stop and a second start. -/
def stopAndStart : List GuiEvent :=
  [.start hostConfig, .confirmed 0 true, .checked 0 .passed, .spawned 0 true, .written 0 true,
    .stop true, .exited 0 0, .start hostConfig, .confirmed 1 true, .checked 1 .passed,
    .spawned 1 true]

theorem start_stop_safe_twice : StartStopSafe (stopAndStart.foldl guiStep Gui.init) := by
  apply start_stop_safe
  apply GuiReachable.run
  decide

/-- Stop is pressed while `exe.exists()` is awaited: there is no process yet to stop, and
the start goes on. -/
def stopDuringCheck : List GuiEvent :=
  [.start hostConfig, .confirmed 0 true, .stop true, .checked 0 .passed, .spawned 0 true,
    .written 0 true]

theorem stop_lost : GuiReachable (fun _ _ => True) (stopDuringCheck.foldl guiStep Gui.init) ∧
    (stopDuringCheck.foldl guiStep Gui.init).status = .running ∧
    ¬ StartStopSafe (stopDuringCheck.foldl guiStep Gui.init) := by
  refine ⟨?_, by decide, fun hsafe => ?_⟩
  · apply GuiReachable.run
    decide
  · have hkept : ∀ a ∈ (stopDuringCheck.foldl guiStep Gui.init).attempts, a.revived = false :=
      hsafe.stop_kept
    revert hkept
    decide

end Tund
