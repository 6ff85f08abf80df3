import Tund.Gui.Launcher

/-!
# The launcher after a failed start

`TundLauncher.start` sets its three fields when it gets the process and clears them only
behind `await process.exitCode`.  Every way to fail before the fields are set leaves
nothing behind, whatever other calls are under way; a failed write of the key does.
-/

namespace Tund

/-- Every child that was started has exited, and `TundLauncher.start` has completed for it. -/
def Gui.Quiet (g : Gui) : Prop :=
  ∀ a ∈ g.attempts, a.child ≠ .notStarted → a.child ≠ .alive ∧ a.phase.Over

/-- The launcher as it was when the window opened: nothing is held, and the next start gets
past the first check. -/
structure Gui.Reusable (g : Gui) : Prop where
  running : g.launcherRunning = false
  stdout : g.stdout = none
  stderr : g.stderr = none
  accepts : ∀ i, g.isAt i .confirming → (g.launcherStart i).isAt i .checking

/-- The key reaches every child. -/
def KeySent (_ : Gui) : GuiEvent → Prop
  | .written _ ok => ok = true
  | _ => True

instance (g : Gui) : (e : GuiEvent) → Decidable (KeySent g e)
  | .written _ ok => inferInstanceAs (Decidable (ok = true))
  | .start _ | .stop _ | .confirmed _ _ | .checked _ _ | .spawned _ _ | .exited _ _ | .stopFlushed _ _
  | .stopTimeout _ | .dispose _ => inferInstanceAs (Decidable True)

/-- A field of the launcher holds something of the `i`-th call. -/
def Gui.holds (g : Gui) (i : ℕ) : Prop :=
  g.process = some i ∨ g.stdout = some i ∨ g.stderr = some i

/-- A call that has started a child and will clear the fields when the child exits. -/
structure Attempt.Holder (a : Attempt) : Prop where
  phase : a.phase = .writing ∨ a.phase = .waiting
  child : a.child ≠ .notStarted

/-- What the fields of the launcher hold belongs to a call that will clear them. -/
def Gui.Held (g : Gui) : Prop :=
  ∀ i, g.holds i → ∃ a, g.attempts[i]? = some a ∧ a.Holder

theorem Gui.Held.init : Gui.init.Held := by
  rintro i (h | h | h) <;> simp [Gui.init] at h

/-- Nothing is held. -/
theorem Gui.Held.of_none {g : Gui} (hprocess : g.process = none) (hout : g.stdout = none)
    (herr : g.stderr = none) : g.Held := by
  rintro i (h | h | h) <;> simp_all

theorem Gui.Held.modify {g : Gui} (h : g.Held) {i : ℕ} {f : Attempt → Attempt}
    (hf : ∀ a, g.attempts[i]? = some a → a.Holder → (f a).Holder) : (g.modify i f).Held := by
  intro j hj
  obtain ⟨a, ha, hholder⟩ := h j hj
  refine ⟨if i = j then f a else a, by rw [Gui.getElem?_modify, ha, Option.map_some], ?_⟩
  split
  · next hij =>
    subst hij
    exact hf a ha hholder
  · exact hholder

/-- A call that is suspended elsewhere holds nothing, so it can do what it wants. -/
theorem Gui.Held.modify_at {g : Gui} (h : g.Held) {i : ℕ} {f : Attempt → Attempt} {phase : StartPhase}
    (hat : g.isAt i phase) (hphase : phase ≠ .writing ∧ phase ≠ .waiting) : (g.modify i f).Held := by
  apply h.modify
  intro a ha hholder
  obtain ⟨b, hb, hbphase⟩ := Option.map_eq_some_iff.mp hat
  rw [ha, Option.some.injEq] at hb
  subst hb
  have := hholder.phase
  rw [hbphase] at this
  exact (this.elim hphase.1 hphase.2).elim

theorem Gui.Held.failWithGuidance {g : Gui} (h : g.Held) (title : String) :
    (g.failWithGuidance title).Held := by
  unfold Gui.failWithGuidance
  split <;> exact h

theorem Gui.Held.launcherStop {g : Gui} (h : g.Held) (written : Bool) :
    (g.launcherStop written).Held := by
  unfold Gui.launcherStop
  split
  · exact h
  · exact h.modify fun a _ ha => ⟨ha.phase, ha.child⟩

/-- The end of `TundLauncher.start` clears all fields. -/
theorem Gui.Held.finish (g : Gui) (i : ℕ) (code : ℤ) : (g.finish i code).Held := by
  unfold Gui.finish Gui.completeExit
  split <;> exact .of_none rfl rfl rfl

theorem Gui.Held.markRunning {g : Gui} (h : g.Held) (i : ℕ) : (g.markRunning i).Held := by
  unfold Gui.markRunning
  split
  · exact h
  · exact Gui.Held.modify (g := { g with status := .running }) h fun a _ ha => ⟨ha.phase, ha.child⟩

/-- One event of a run in which every key is sent. -/
theorem Gui.Held.step {g : Gui} {e : GuiEvent} (h : g.Held) (hcan : GuiCan g e) (hsent : KeySent g e) :
    (guiStep g e).Held := by
  cases e with
  | start config =>
    simp only [guiStep]
    split
    · exact h
    · intro i hi
      obtain ⟨a, ha, hholder⟩ := h i hi
      exact ⟨a, by rw [List.getElem?_append_left (List.getElem?_eq_some_iff.mp ha).1, ha], hholder⟩
  | stop written =>
    apply Gui.Held.launcherStop
    intro i hi
    obtain ⟨a, ha, hholder⟩ := h i hi
    refine ⟨{ a with stopAsked := a.stopAsked || a.underWay }, ?_, ⟨hholder.phase, hholder.child⟩⟩
    rw [List.getElem?_map, ha, Option.map_some]
  | confirmed i accepted =>
    have hat : g.isAt i .confirming := hcan
    simp only [guiStep]
    split
    · exact h.modify_at hat (by decide)
    · unfold Gui.launcherStart
      split
      · exact (Gui.Held.modify_at (g := g.prepareStart) h hat (by decide)).failWithGuidance _
      · exact Gui.Held.modify_at (g := g.prepareStart) h hat (by decide)
  | checked i result =>
    have hat : g.isAt i .checking := hcan
    simp only [guiStep]
    split
    · exact h.modify_at hat (by decide)
    · exact (h.modify_at hat (by decide)).failWithGuidance _
  | spawned i ok =>
    have hat : g.isAt i .spawning := hcan
    cases ok with
    | false => exact (h.modify_at hat (by decide)).failWithGuidance _
    | true =>
      obtain ⟨a, ha, -⟩ := Option.map_eq_some_iff.mp hat
      intro j hj
      obtain rfl : i = j := by simpa [guiStep, Gui.holds, Gui.processStarted, Gui.modify] using hj
      refine ⟨{ a with phase := .writing, child := .alive, signals := [.line a.config.key] }, ?_,
        .inl rfl, fun h => by cases h⟩
      show (Gui.modify _ _ _).attempts[i]? = _
      rw [Gui.getElem?_modify, ha, Option.map_some, if_pos rfl]
  | written i ok =>
    obtain rfl : ok = true := hsent
    simp only [guiStep, Gui.keyWritten]
    split
    · exact .finish _ i _
    · exact (h.markRunning i).modify fun a _ ha => ⟨.inr rfl, ha.child⟩
  | exited i code =>
    simp only [guiStep, Gui.processExited]
    split
    · exact .finish g i code
    · exact h.modify fun a _ ha => ⟨ha.phase, fun h => by cases h⟩
  | stopFlushed i ok =>
    cases ok with
    | true => exact h
    | false => exact h.modify fun a _ ha => ⟨ha.phase, ha.child⟩
  | stopTimeout i =>
    simp only [guiStep]
    split
    · exact h.modify fun a _ ha => ⟨ha.phase, ha.child⟩
    · exact h
  | dispose written => exact Gui.Held.launcherStop (g := { g with disposed := true }) h written

/-- Nothing is held once every call that started a child is over. -/
theorem Gui.Held.reusable {g : Gui} (h : g.Held) (hquiet : g.Quiet) : g.Reusable := by
  have hfree : ∀ i, ¬ g.holds i := by
    intro i hi
    obtain ⟨a, ha, hholder⟩ := h i hi
    have hover := (hquiet a (List.mem_of_getElem? ha) hholder.child).2
    rcases hholder.phase with hphase | hphase <;> rw [hphase] at hover <;> exact hover
  have hnone : ∀ o : Option ℕ, (∀ i, o = some i → g.holds i) → o = none :=
    fun o ho => Option.eq_none_iff_forall_not_mem.mpr fun i hi => hfree i (ho i hi)
  have hprocess : g.process = none := hnone _ fun i hi => .inl hi
  refine ⟨by simp [Gui.launcherRunning, hprocess], hnone _ fun i hi => .inr (.inl hi),
    hnone _ fun i hi => .inr (.inr hi), ?_⟩
  intro i hat
  obtain ⟨a, ha, -⟩ := Option.map_eq_some_iff.mp hat
  rw [Gui.launcherStart, if_neg (by simp [Gui.launcherRunning, hprocess])]
  simp [Gui.isAt, Gui.getElem?_modify, ha]

/-- In the runs in which every key is sent, the launcher is as it was at first whenever the
calls that started a child are over and the children have exited, however the other calls
ended. -/
theorem failed_start_leaves_launcher_reusable {g : Gui} (h : GuiReachable KeySent g) (hquiet : g.Quiet) :
    g.Reusable := by
  have hheld : g.Held := by
    apply h.invariant
    · rintro g rfl
      exact .init
    · exact fun g e hok h => h.step hok.1 hok.2
  exact hheld.reusable hquiet

/-- A child that runs and fails, and then a start that does not find the executable. -/
def executableRemoved : List GuiEvent :=
  [.start hostConfig, .confirmed 0 true, .checked 0 .passed, .spawned 0 true, .written 0 true,
    .exited 0 1, .start hostConfig, .confirmed 1 true, .checked 1 .missingExecutable]

theorem failed_start_leaves_launcher_reusable_removed :
    (executableRemoved.foldl guiStep Gui.init).isAt 1 (.failed .missingExecutable) ∧
    (executableRemoved.foldl guiStep Gui.init).Reusable := by
  refine ⟨by decide, failed_start_leaves_launcher_reusable ?_ ?_⟩
  · apply GuiReachable.run
    decide
  · show ∀ a ∈ (executableRemoved.foldl guiStep Gui.init).attempts, _
    decide

/-- The child exits without reading the key, and the write of the key fails. -/
def keyNotRead : List GuiEvent :=
  [.start hostConfig, .confirmed 0 true, .checked 0 .passed, .spawned 0 true, .exited 0 1,
    .written 0 false]

theorem failed_key_keeps_process : GuiReachable (fun _ _ => True) (keyNotRead.foldl guiStep Gui.init) ∧
    (keyNotRead.foldl guiStep Gui.init).isAt 0 (.failed .keyNotSent) ∧
    (keyNotRead.foldl guiStep Gui.init).Quiet ∧ ¬ (keyNotRead.foldl guiStep Gui.init).Reusable := by
  refine ⟨?_, by decide, ?_, fun h => ?_⟩
  · apply GuiReachable.run
    decide
  · show ∀ a ∈ (keyNotRead.foldl guiStep Gui.init).attempts, _
    decide
  · have hrunning : (keyNotRead.foldl guiStep Gui.init).launcherRunning = false := h.running
    revert hrunning
    decide

end Tund
