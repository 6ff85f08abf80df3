import Tund.Protocol.Transport

/-!
# The sequence counter under threads

`g_proto_next_sequence` is the one datum that the threads of a process share without a
lock.  Here `proto_next_sequence` is cut into its atomic steps (`Drawing.step`): the load,
the random seed, the compare-exchange and the fetch-add.  `Counter.run` interleaves the
calls of any number of threads in any order, each step with an environment of its own, so
that the random source may fail at any point.

What a call does after `proto_next_sequence` has returned touches the counter no more; it
is the sequential code on a process whose counter stands at the number that was drawn.

The invariant has two parts.  `Counter.Counts`: once seeded, the counter stands at the seed
plus the number of fetch-adds, and nobody is at the fetch-add of an unseeded counter.
`Counter.Owns`: every number is with at most one thread or one finished call.
-/

namespace Tund

/-! ### The atomic steps of `proto_next_sequence` -/

/-- `proto_initial_sequence` on the bytes from the random source. -/
def initialSequence (b : Bytes) : UInt64 :=
  let seed := UInt64.ofNat (Bytes.ofLe b) &&& ((0xFFFFFFFFFFFFFFFF : UInt64) >>> 1)
  if seed = 0 then 1 else seed

theorem initialSequence_ne_zero (b : Bytes) : initialSequence b ≠ 0 := by
  unfold initialSequence
  simp only
  split_ifs with h
  · decide
  · exact h

theorem initialSequence_lt (b : Bytes) : (initialSequence b).toNat < 2 ^ 63 := by
  unfold initialSequence
  simp only
  split_ifs
  · decide
  · exact seed_lt _

/-- The next atomic step of a call of `proto_next_sequence`. -/
inductive Drawing
  /-- `atomic_load_explicit` -/
  | load
  /-- `proto_initial_sequence` -/
  | seed
  /-- `atomic_compare_exchange_strong_explicit` with `expected = 0` -/
  | exchange (initial : UInt64)
  /-- `atomic_fetch_add_explicit` -/
  | add
  /-- The call has returned. -/
  | done (sequence : Option UInt64)
  deriving DecidableEq

/-- The test `while (current == 0)`. -/
def Drawing.loop (current : UInt64) : Drawing := if current = 0 then .seed else .add

/-- One atomic step, with the counter before and after it. -/
def Drawing.step (random : Option Bytes) (counter : UInt64) : Drawing → UInt64 × Drawing
  | .load => (counter, loop counter)
  | .seed =>
    match random with
    | none => (counter, .done none)
    | some b => (counter, .exchange (initialSequence b))
  | .exchange initial =>
    if counter = 0 then (initial, .add)
    -- `expected` now holds the value that was seen
    else (counter, loop counter)
  | .add => (counter + 1, .done (if counter = 0 then none else some counter))
  | .done sequence => (counter, .done sequence)

/-- `n` steps that nobody interrupts. -/
def Drawing.alone (random : Option Bytes) : ℕ → UInt64 × Drawing → UInt64 × Drawing
  | 0, c => c
  | n + 1, c => alone random n (c.2.step random c.1)

/-- A call that nobody interrupts is `protoNextSequence`. -/
theorem alone_protoNextSequence (env : Env) (io : Proc) :
    Drawing.alone (protoRandomBytes env io 8).1 4 (io.nextSequence, .load) =
      ((protoNextSequence env io).2.nextSequence, .done (protoNextSequence env io).1) := by
  by_cases h0 : io.nextSequence = 0
  · cases hf : env.random io.calls with
    | none =>
      simp [Drawing.alone, Drawing.step, Drawing.loop, protoNextSequence, protoInitialSequence,
        protoRandomBytes, h0, hf]
    | some f =>
      have hne := initialSequence_ne_zero ((List.range 8).map f)
      have hi : protoInitialSequence env io =
          (some (initialSequence ((List.range 8).map f)), { io with calls := io.calls + 1 }) := by
        simp only [protoInitialSequence, protoRandomBytes, hf, Option.map_some]
        rfl
      simp only [protoNextSequence, if_pos h0, hi, fetchAddSequence, if_neg hne]
      simp only [Drawing.alone, Drawing.step, Drawing.loop, protoRandomBytes, h0, hf,
        Option.map_some, if_true, if_neg hne]
  · simp [Drawing.alone, Drawing.step, Drawing.loop, protoNextSequence, fetchAddSequence, h0]

/-! ### Calls -/

/-- A call that draws a number. -/
inductive NumberedCall
  | writeHdr (buf : Bytes) (type : UInt8) (payloadLen : UInt16)
  | encrypt (buf : Bytes) (len : ℕ)
  | netSend (buf : Bytes) (len : Option ℕ) (dest : SockAddr)

/-- The checks of `proto_encrypt`. -/
def encryptChecks (buf : Bytes) (len : ℕ) : Bool :=
  match protoReadHdr buf with
  | .error _ => false
  | .ok (_, payloadLen) =>
    tundHdrSize ≤ len && len - tundHdrSize ≤ tundMaxPlaintext &&
      payloadLen = UInt16.ofNat (len - tundHdrSize)

/-- The checks that a call makes before it calls `proto_next_sequence`. -/
def NumberedCall.checks : NumberedCall → Bool
  | .writeHdr _ _ payloadLen => payloadLen.toNat ≤ tundMaxPlaintext
  | .encrypt buf len => encryptChecks buf len
  | .netSend _ none _ => false
  | .netSend buf (some len) _ =>
    tundHdrSize ≤ len && len ≤ tundHdrSize + tundMaxPlaintext && encryptChecks (buf.take len) len

/-- A process whose counter stands at `seq`. -/
def Proc.numbered (seq : UInt64) : Proc := { Proc.start with nextSequence := seq }

@[simp] theorem Proc.numbered_nextSequence (seq : UInt64) : (numbered seq).nextSequence = seq := rfl

@[simp] theorem Proc.numbered_out (seq : UInt64) : (numbered seq).out = [] := rfl

/-- The rest of a call that has drawn `seq`: the header or datagram it makes, if it succeeds. -/
def NumberedCall.finish (env : Env) (seq : UInt64) : NumberedCall → Option Bytes
  | .writeHdr buf type payloadLen =>
    match protoWriteHdr env (Proc.numbered seq) buf type payloadLen with
    | (none, _) => none
    | (some _, b, _) => some b
  | .encrypt buf len =>
    match protoEncrypt env (Proc.numbered seq) buf len with
    | (none, _) => none
    | (some n, b, _) => some (b.take n)
  | .netSend buf len dest =>
    match (Tund.netSend env (Proc.numbered seq) buf len dest).2.out with
    | [.datagram d] => some d.wire
    | _ => none

section Finish

variable {env : Env} {seq : UInt64}

/-- An encrypted datagram shows the number that was drawn for it, whatever was in the buffer. -/
theorem protoEncrypt_shows {io io' : Proc} {buf b : Bytes} {len n : ℕ}
    (h : protoEncrypt env io buf len = (some n, b, io')) :
    ∃ seq, SequenceDrawn env io io' seq ∧ io.calls < io'.calls ∧
      protoReadSequence (b.take n) = some seq := by
  unfold protoEncrypt at h
  split_ifs at h with hlen
  · simp at h
  cases hread : protoReadHdr buf with
  | error e => simp [hread] at h
  | ok v =>
    obtain ⟨type, payloadLen⟩ := v
    simp only [hread] at h
    split_ifs at h with hmax hpay
    · simp at h
    · simp at h
    rcases hw : protoWriteHdr env io buf type (UInt16.ofNat (len - tundHdrSize)) with
      ⟨_ | m, b₁, io₁⟩
    · simp [hw] at h
    obtain ⟨-, -, seq, nonce, hn, hd, hc, rfl⟩ := protoWriteHdr_some hw
    simp only [hw, protoWritePayloadLen_hdrBytes, Prod.mk.injEq, Option.some.injEq] at h
    obtain ⟨rfl, rfl, rfl⟩ := h
    refine ⟨seq, hd, hc, ?_⟩
    -- ciphertext and tag are written behind the header
    set rest := buf.drop tundHdrSize
    have hhdr : ∀ l : UInt16, (hdrBytes type l seq nonce).length = tundHdrSize :=
      fun l => length_hdrBytes hn
    have hoff : tundSequenceOffset + 8 ≤ tundHdrSize := by decide
    have hlong : tundSequenceOffset + 8 ≤ (hdrBytes type
        (UInt16.ofNat (len - tundHdrSize + tundAuthTagSize)) seq nonce ++ rest).length := by
      rw [List.length_append, hhdr]
      omega
    have hval : UInt64.ofNat (Bytes.ofBe (Bytes.be 8 seq.toNat)) = seq := by
      rw [Bytes.ofBe_be_of_lt (by simpa using seq.toNat_lt), UInt64.ofNat_toNat]
    rw [protoReadSequence, Bytes.slice_take (by omega), Bytes.slice_patch_before _ (by omega),
      Bytes.slice_patch_before hlong hoff, slice_hdrBytes_of_ge rest hn (by decide) hoff]
    · simp [tundSequenceOffset, Bytes.slice, hval, hd.ne_zero]
    · rw [Bytes.patch, List.length_append, List.length_append, List.length_take]
      omega

/-- The two outcomes of `net_send` for the process: nothing is put out, or one datagram that shows
the number drawn for it. -/
theorem netSend_shows (env : Env) (io : Proc) (buf : Bytes) (len : Option ℕ) (dest : SockAddr) :
    (netSend env io buf len dest).2.out = io.out ∨
    ∃ seq d io₁, SequenceDrawn env io io₁ seq ∧ io.calls < io₁.calls ∧ d.dest = dest ∧
      protoReadSequence d.wire = some seq ∧
      netSend env io buf len dest = (d.sent, { io₁ with
        calls := io₁.calls + 1, out := io.out ++ [.datagram d] }) := by
  cases len with
  | none => exact .inl rfl
  | some len =>
    unfold netSend
    simp only
    split_ifs with h1 h2
    · exact .inl rfl
    · exact .inl rfl
    have hquiet := (protoEncrypt_out env io (buf.take len) len).1
    rcases he : protoEncrypt env io (buf.take len) len with ⟨_ | n, b, io₁⟩
    · left
      rw [he] at hquiet
      exact hquiet
    · obtain ⟨seq, hd, hc, hshows⟩ := protoEncrypt_shows he
      refine .inr ⟨seq, ⟨dest, buf.take len, b.take n, env.sendto io₁.calls⟩, io₁, hd, hc, rfl,
        hshows, ?_⟩
      simp only [hd.out]

/-- What a finished call has made shows its number. -/
theorem NumberedCall.finish_shows {c : NumberedCall} {b : Bytes} (h : c.finish env seq = some b)
    (h0 : seq ≠ 0) : protoReadSequence b = some seq := by
  cases c with
  | writeHdr buf type payloadLen =>
    unfold NumberedCall.finish at h
    rcases hw : protoWriteHdr env (Proc.numbered seq) buf type payloadLen with ⟨_ | n, b', io'⟩
    · simp [hw] at h
    · obtain ⟨-, -, seq', nonce, -, hd, -, rfl⟩ := protoWriteHdr_some hw
      simp only [hw, Option.some.injEq] at h
      rw [← h, hd.of_ne_zero h0]
      exact protoReadSequence_hdrBytes _ h0
  | encrypt buf len =>
    unfold NumberedCall.finish at h
    rcases he : protoEncrypt env (Proc.numbered seq) buf len with ⟨_ | n, b', io'⟩
    · simp [he] at h
    · obtain ⟨seq', hd, -, hshows⟩ := protoEncrypt_shows he
      simp only [he, Option.some.injEq] at h
      rw [← h, hshows, hd.of_ne_zero h0]
      rfl
  | netSend buf len dest =>
    unfold NumberedCall.finish at h
    rcases netSend_shows env (Proc.numbered seq) buf len dest with hq | ⟨seq', d, io₁, hd, -, -, hs, he⟩
    · simp [hq] at h
    · simp only [he, Proc.numbered_out, List.nil_append, Option.some.injEq] at h
      rw [← h, hs, hd.of_ne_zero h0]
      rfl

end Finish

/-! ### Threads -/

/-- A thread between two of its atomic steps. -/
inductive CallState
  | idle
  | drawing (call : NumberedCall) (step : Drawing)

/-- The threads of a process and their counter. -/
structure Counter (ι : Type*) where
  /-- `g_proto_next_sequence` -/
  counter : UInt64
  thread : ι → CallState
  /-- How many calls have begun. -/
  begun : ℕ
  /-- The numbers that `proto_next_sequence` has yielded, in the order of the fetch-adds. -/
  drawn : List UInt64
  /-- The calls that have succeeded, each with the header or datagram it made. -/
  made : List (NumberedCall × Bytes)

namespace Counter

variable {ι : Type*}

/-- A process that has drawn nothing. -/
def start : Counter ι := ⟨0, fun _ => .idle, 0, [], []⟩

/-- What can happen next. -/
inductive Ev (ι : Type*)
  /-- A thread that is in no call begins one. -/
  | call (i : ι) (c : NumberedCall)
  /-- A thread that is in a call makes its next atomic step. -/
  | run (i : ι) (env : Env)

variable [DecidableEq ι]

/-- Put a thread in a state. -/
def setThread (s : Counter ι) (i : ι) (t : CallState) : Counter ι :=
  { s with thread := Function.update s.thread i t }

/-- The number that a fetch-add yields, if this step is one. -/
def yielded : Drawing → UInt64 → List UInt64
  | .add, counter => if counter = 0 then [] else [counter]
  | _, _ => []

/-- One event. -/
def step (s : Counter ι) : Ev ι → Counter ι
  | .call i c =>
    match s.thread i with
    | .drawing _ _ => s
    | .idle =>
      { s.setThread i (if c.checks then .drawing c .load else .idle) with begun := s.begun + 1 }
  | .run i env =>
    match s.thread i with
    | .idle => s
    | .drawing _ (.done none) => s.setThread i .idle
    | .drawing c (.done (some seq)) =>
      { s.setThread i .idle with
        made := s.made ++ ((c.finish env seq).map fun b => (c, b)).toList }
    | .drawing c d =>
      let next := d.step (protoRandomBytes env Proc.start 8).1 s.counter
      { s.setThread i (.drawing c next.2) with
        counter := next.1
        drawn := s.drawn ++ yielded d s.counter }

/-- A whole run, first event first. -/
def run (s : Counter ι) (evs : List (Ev ι)) : Counter ι := evs.foldl step s

omit [DecidableEq ι] in
@[simp] theorem start_thread (i : ι) : (start : Counter ι).thread i = .idle := rfl

theorem run_append (s : Counter ι) (evs evs' : List (Ev ι)) :
    s.run (evs ++ evs') = (s.run evs).run evs' := List.foldl_append

/-! ### What a step can do -/

end Counter

/-- The thread has begun a call and not reached its fetch-add. -/
def CallState.waiting : CallState → Prop
  | .idle => False
  | .drawing _ (.done _) => False
  | .drawing _ _ => True

/-- The number that the thread's call has drawn. -/
def CallState.number : CallState → Option UInt64
  | .drawing _ (.done sequence) => sequence
  | _ => none

/-- What a thread may rely on where it stands. -/
def CallState.Sound (counter : UInt64) : CallState → Prop
  | .drawing _ (.exchange initial) => initial ≠ 0 ∧ initial.toNat < 2 ^ 63
  | .drawing _ .add => counter ≠ 0
  | _ => True

namespace Counter

variable {ι : Type*} [DecidableEq ι]

/-- The effects of one event. -/
inductive Effect (s : Counter ι) : Counter ι → Prop
  | none : Effect s s
  /-- A step that leaves counter and numbers alone. -/
  | quiet (i : ι) (t : CallState) (hs : t.Sound s.counter) (hn : t.number = .none)
      (hw : t.waiting → (s.thread i).waiting) : Effect s (s.setThread i t)
  | begin (i : ι) (t : CallState) (hs : t.Sound s.counter) (hn : t.number = .none) :
      Effect s { s.setThread i t with begun := s.begun + 1 }
  /-- The compare-exchange that seeds the counter. -/
  | seed (i : ι) (c : NumberedCall) (initial : UInt64) (h0 : s.counter = 0)
      (hi : s.thread i = .drawing c (.exchange initial)) :
      Effect s { s.setThread i (.drawing c .add) with counter := initial }
  | add (i : ι) (c : NumberedCall) (hi : s.thread i = .drawing c .add) :
      Effect s { s.setThread i
          (.drawing c (.done (if s.counter = 0 then .none else some s.counter))) with
        counter := s.counter + 1
        drawn := s.drawn ++ yielded .add s.counter }
  | finish (i : ι) (c : NumberedCall) (seq : UInt64) (env : Env)
      (hi : s.thread i = .drawing c (.done (some seq))) :
      Effect s { s.setThread i .idle with
        made := s.made ++ ((c.finish env seq).map fun b => (c, b)).toList }

theorem sound_loop (c : NumberedCall) (counter : UInt64) :
    CallState.Sound counter (.drawing c (.loop counter)) := by
  unfold Drawing.loop
  split_ifs with h
  · trivial
  · exact h

theorem number_loop (c : NumberedCall) (counter : UInt64) :
    CallState.number (.drawing c (.loop counter)) = none := by
  unfold Drawing.loop
  split_ifs <;> rfl

theorem step_effect (s : Counter ι) (e : Ev ι) : Effect s (s.step e) := by
  cases e with
  | call i c =>
    cases ht : s.thread i with
    | drawing c' d =>
      simp only [step, ht]
      exact .none
    | idle =>
      simp only [step, ht]
      split_ifs with hc
      · exact .begin i (.drawing c .load) trivial rfl
      · exact .begin i .idle trivial rfl
  | run i env =>
    cases ht : s.thread i with
    | idle =>
      simp only [step, ht]
      exact .none
    | drawing c d =>
      -- a thread that waits may move to any place that has no number
      have hwait : (∀ r, d ≠ .done r) → (s.thread i).waiting := by
        intro hd
        rw [ht]
        cases d with
        | done r => exact absurd rfl (hd r)
        | _ => trivial
      have hloop : (∀ r, d ≠ .done r) → Effect s (s.setThread i (.drawing c (.loop s.counter))) :=
        fun hd => .quiet i _ (sound_loop c s.counter) (number_loop c s.counter) fun _ => hwait hd
      cases d with
      | load => simpa [step, ht, Drawing.step, yielded, setThread] using hloop nofun
      | seed =>
        cases hr : (protoRandomBytes env Proc.start 8).1 with
        | none =>
          have h : Effect s (s.setThread i (.drawing c (.done none))) :=
            .quiet i _ trivial rfl fun _ => hwait nofun
          simpa [step, ht, Drawing.step, yielded, setThread, hr] using h
        | some b =>
          have h : Effect s (s.setThread i (.drawing c (.exchange (initialSequence b)))) :=
            .quiet i _ ⟨initialSequence_ne_zero b, initialSequence_lt b⟩ rfl fun _ => hwait nofun
          simpa [step, ht, Drawing.step, yielded, setThread, hr] using h
      | exchange initial =>
        by_cases h0 : s.counter = 0
        · have h := Effect.seed i c initial h0 ht
          simpa [step, ht, Drawing.step, yielded, setThread, h0] using h
        · simpa [step, ht, Drawing.step, yielded, setThread, h0] using hloop nofun
      | add =>
        simp only [step, ht]
        exact .add i c ht
      | done r =>
        cases r with
        | none =>
          simp only [step, ht]
          exact .quiet i .idle trivial rfl False.elim
        | some seq =>
          simp only [step, ht]
          exact .finish i c seq env ht

/-! ### The invariant -/

/-- The numbers that the finished calls show. -/
def shown (s : Counter ι) : List (Option UInt64) := s.made.map fun r => protoReadSequence r.2

/-- The counter: where it stands, and how many fetch-adds are still to come. -/
structure Counts (s : Counter ι) : Prop where
  sound : ∀ i, (s.thread i).Sound s.counter
  numbers : s.counter = 0 ∧ s.drawn = [] ∨ ∃ seed : ℕ, seed ≠ 0 ∧ seed < 2 ^ 63 ∧
    s.counter.toNat = seed + s.drawn.length ∧
    s.drawn.map UInt64.toNat = List.range' seed s.drawn.length
  waiting : ∃ w : Finset ι, (∀ i, (s.thread i).waiting → i ∈ w) ∧
    s.drawn.length + w.card ≤ s.begun

/-- The numbers: each is with one thread or one finished call at most. -/
structure Owns (s : Counter ι) : Prop where
  held : ∀ i n, (s.thread i).number = some n → n ∈ s.drawn ∧ some n ∉ s.shown
  single : ∀ i j n, (s.thread i).number = some n → (s.thread j).number = some n → i = j
  nodup : s.shown.Nodup
  shown_mem : ∀ x ∈ s.shown, ∃ n ∈ s.drawn, x = some n

omit [DecidableEq ι] in
/-- A number behind the last one. -/
theorem Counts.fresh {s : Counter ι} (h : s.Counts) : s.counter ∉ s.drawn := by
  intro hmem
  rcases h.numbers with ⟨-, hd⟩ | ⟨seed, -, -, hc, hd⟩
  · rw [hd] at hmem
    cases hmem
  · have : s.counter.toNat ∈ s.drawn.map UInt64.toNat := List.mem_map_of_mem hmem
    rw [hd, List.mem_range'_1] at this
    omega

omit [DecidableEq ι] in
theorem Counts.ne_zero {s : Counter ι} (h : s.Counts) {n : UInt64} (hn : n ∈ s.drawn) : n ≠ 0 := by
  rintro rfl
  rcases h.numbers with ⟨-, hd⟩ | ⟨seed, hs, -, -, hd⟩
  · rw [hd] at hn
    cases hn
  · have : (0 : UInt64).toNat ∈ s.drawn.map UInt64.toNat := List.mem_map_of_mem hn
    rw [hd, List.mem_range'_1] at this
    simp at this
    omega

omit [DecidableEq ι] in
theorem counts_start : (start : Counter ι).Counts where
  sound _ := trivial
  numbers := .inl ⟨rfl, rfl⟩
  waiting := ⟨∅, fun _ h => h.elim, le_rfl⟩

omit [DecidableEq ι] in
theorem owns_start : (start : Counter ι).Owns where
  held _ _ h := by simp [CallState.number] at h
  single _ _ _ h := by simp [CallState.number] at h
  nodup := List.nodup_nil
  shown_mem _ h := by cases h

omit [DecidableEq ι] in
/-- A seeded counter stays seeded, so what the threads rely on stays true. -/
theorem sound_mono {t : CallState} {c c' : UInt64} (h : t.Sound c) (hc : c ≠ 0 → c' ≠ 0) :
    t.Sound c' := by
  cases t with
  | idle => trivial
  | drawing call d =>
    cases d with
    | add => exact hc h
    | exchange initial => exact h
    | _ => trivial

theorem setThread_thread (s : Counter ι) (i j : ι) (t : CallState) :
    (s.setThread i t).thread j = if j = i then t else s.thread j := Function.update_apply _ _ _ _

/-- A property of all threads after one has moved. -/
theorem forall_setThread {s : Counter ι} {i : ι} {t : CallState} {P : ι → CallState → Prop}
    (hi : P i t) (h : ∀ j, j ≠ i → P j (s.thread j)) (j : ι) : P j ((s.setThread i t).thread j) := by
  rw [setThread_thread]
  split_ifs with hj
  · rw [hj]
    exact hi
  · exact h j hj

/-- One step keeps the count, as long as fewer than `2 ^ 63` calls have begun. -/
theorem Counts.step {s : Counter ι} (h : s.Counts) (e : Ev ι) (hb : (s.step e).begun < 2 ^ 63) :
    (s.step e).Counts := by
  have heff := step_effect s e
  generalize s.step e = s' at heff hb
  obtain ⟨w, hw, hcard⟩ := h.waiting
  cases heff with
  | none => exact h
  | quiet i t hs hn hwait =>
    refine ⟨forall_setThread hs fun j _ => h.sound j, h.numbers, w, ?_, hcard⟩
    exact forall_setThread (P := fun j t => t.waiting → j ∈ w) (fun ht => hw i (hwait ht))
      fun j _ => hw j
  | begin i t hs hn =>
    refine ⟨forall_setThread hs fun j _ => h.sound j, h.numbers, insert i w, ?_, ?_⟩
    · exact forall_setThread (P := fun j t => t.waiting → j ∈ insert i w)
        (fun _ => Finset.mem_insert_self i w) fun j _ hj => Finset.mem_insert_of_mem (hw j hj)
    · have := Finset.card_insert_le i w
      show s.drawn.length + (insert i w).card ≤ s.begun + 1
      omega
  | seed i c initial h0 hi =>
    have hinit : initial ≠ 0 ∧ initial.toNat < 2 ^ 63 := by
      have := h.sound i
      rwa [hi] at this
    have hnil : s.drawn = [] := by
      rcases h.numbers with ⟨-, hd⟩ | ⟨seed, hs, -, hc, -⟩
      · exact hd
      · rw [h0] at hc
        simp at hc
        omega
    refine ⟨forall_setThread hinit.1 fun j _ => sound_mono (h.sound j) fun _ => hinit.1, .inr ?_,
      w, ?_, hcard⟩
    · refine ⟨initial.toNat, ?_, hinit.2, ?_, ?_⟩
      · intro hz
        exact hinit.1 (UInt64.toNat_inj.1 hz)
      · show initial.toNat = initial.toNat + s.drawn.length
        rw [hnil]
        rfl
      · show s.drawn.map UInt64.toNat = List.range' initial.toNat s.drawn.length
        rw [hnil]
        rfl
    · exact forall_setThread (P := fun j t => t.waiting → j ∈ w)
        (fun _ => hw i (by rw [hi]; trivial)) fun j _ => hw j
  | add i c hi =>
    have hne : s.counter ≠ 0 := by
      have := h.sound i
      rwa [hi] at this
    have hmem : i ∈ w := hw i (by rw [hi]; trivial)
    have hpos : 0 < w.card := Finset.card_pos.2 ⟨i, hmem⟩
    have hbegun : s.begun < 2 ^ 63 := hb
    rcases h.numbers with ⟨h0, -⟩ | ⟨seed, hs, hlt, hc, hd⟩
    · exact absurd h0 hne
    -- the seed is below `2 ^ 63` and so is the number of fetch-adds: no wrap-around
    have hnext : (s.counter + 1).toNat = s.counter.toNat + 1 := by
      rw [UInt64.toNat_add, UInt64.toNat_one]
      omega
    have hne' : s.counter + 1 ≠ 0 := by
      intro hz
      rw [hz] at hnext
      simp at hnext
    have hy : yielded .add s.counter = [s.counter] := by simp [yielded, hne]
    rw [hy]
    refine ⟨forall_setThread trivial fun j _ => sound_mono (h.sound j) fun _ => hne', .inr ?_,
      w.erase i, ?_, ?_⟩
    · refine ⟨seed, hs, hlt, ?_, ?_⟩
      · show (s.counter + 1).toNat = seed + (s.drawn ++ [s.counter]).length
        rw [hnext, hc, List.length_append, List.length_singleton]
        omega
      · show (s.drawn ++ [s.counter]).map UInt64.toNat = _
        rw [List.map_append, hd, List.map_singleton, hc, List.length_append, List.length_singleton,
          List.range'_1_concat]
    · exact forall_setThread (P := fun j t => t.waiting → j ∈ w.erase i) False.elim
        fun j hj hwj => Finset.mem_erase.2 ⟨hj, hw j hwj⟩
    · show (s.drawn ++ [s.counter]).length + (w.erase i).card ≤ s.begun
      rw [List.length_append, List.length_singleton, Finset.card_erase_of_mem hmem]
      omega
  | finish i c seq env hi =>
    refine ⟨forall_setThread trivial fun j _ => h.sound j, h.numbers, w, ?_, hcard⟩
    exact forall_setThread (P := fun j t => t.waiting → j ∈ w) False.elim fun j _ => hw j

/-- A thread that gives its number up, or has none. -/
theorem Owns.setThread {s : Counter ι} (h : s.Owns) (i : ι) {t : CallState} (ht : t.number = none) :
    (s.setThread i t).Owns := by
  have hno : ∀ {n}, t.number ≠ some n := by
    intro n
    rw [ht]
    exact nofun
  refine ⟨?_, ?_, h.nodup, h.shown_mem⟩
  · exact forall_setThread (P := fun _ t => ∀ n, t.number = some n → n ∈ s.drawn ∧ some n ∉ s.shown)
      (fun n hn => absurd hn hno) fun j _ => h.held j
  · intro j k n hj hk
    rw [setThread_thread] at hj hk
    split_ifs at hj hk with hji hki
    · exact absurd hj hno
    · exact absurd hj hno
    · exact absurd hk hno
    · exact h.single j k n hj hk

/-- One step keeps every number with one owner. -/
theorem Owns.step {s : Counter ι} (hc : s.Counts) (h : s.Owns) (e : Ev ι) : (s.step e).Owns := by
  have heff := step_effect s e
  generalize s.step e = s' at heff
  cases heff with
  | none => exact h
  | quiet i t hs hn hw => exact h.setThread i hn
  | begin i t hs hn =>
    obtain ⟨h1, h2, h3, h4⟩ := h.setThread i hn
    exact ⟨h1, h2, h3, h4⟩
  | seed i c initial h0 hi =>
    obtain ⟨h1, h2, h3, h4⟩ := h.setThread i (t := .drawing c .add) rfl
    exact ⟨h1, h2, h3, h4⟩
  | add i c hi =>
    have hne : s.counter ≠ 0 := by
      have := hc.sound i
      rwa [hi] at this
    have hy : yielded .add s.counter = [s.counter] := by simp [yielded, hne]
    rw [hy, if_neg hne]
    -- nobody has the new number
    have hnew : ∀ j, (s.thread j).number ≠ some s.counter :=
      fun j hj => hc.fresh (h.held j _ hj).1
    have hunshown : some s.counter ∉ s.shown := by
      intro hmem
      obtain ⟨n, hn, heq⟩ := h.shown_mem _ hmem
      cases heq
      exact hc.fresh hn
    refine ⟨?_, ?_, h.nodup, ?_⟩
    · intro j n hj
      rw [setThread_thread] at hj
      split_ifs at hj with hji
      · cases hj
        exact ⟨List.mem_append_right _ (List.mem_singleton_self _), hunshown⟩
      · exact ⟨List.mem_append_left _ (h.held j n hj).1, (h.held j n hj).2⟩
    · intro j k n hj hk
      rw [setThread_thread] at hj hk
      split_ifs at hj hk with hji hki
      · rw [hji, hki]
      · cases hj
        exact absurd hk (hnew k)
      · cases hk
        exact absurd hj (hnew j)
      · exact h.single j k n hj hk
    · intro x hx
      obtain ⟨n, hn, rfl⟩ := h.shown_mem x hx
      exact ⟨n, List.mem_append_left _ hn, rfl⟩
  | finish i c seq env hi =>
    have hnum : (s.thread i).number = some seq := by rw [hi]; rfl
    obtain ⟨hdrawn, hunshown⟩ := h.held i seq hnum
    obtain ⟨h1, h2, h3, h4⟩ := h.setThread i (t := .idle) rfl
    cases hf : c.finish env seq with
    | none =>
      simp only [Option.map_none, Option.toList_none, List.append_nil]
      exact ⟨h1, h2, h3, h4⟩
    | some b =>
      have hshows := NumberedCall.finish_shows hf (hc.ne_zero hdrawn)
      have hlist : Counter.shown { s.setThread i .idle with
          made := s.made ++ ((some b).map fun b => (c, b)).toList } = s.shown ++ [some seq] := by
        simp [shown, hshows]
      refine ⟨?_, h2, ?_, ?_⟩
      · intro j n hj
        rw [hlist]
        rw [setThread_thread] at hj
        split_ifs at hj with hji
        · cases hj
        · refine ⟨(h.held j n hj).1, fun hmem => ?_⟩
          rcases List.mem_append.1 hmem with hmem | hmem
          · exact (h.held j n hj).2 hmem
          · cases List.mem_singleton.1 hmem
            exact hji (h.single j i seq hj hnum)
      · rw [hlist]
        exact List.nodup_append.2 ⟨h.nodup, List.nodup_singleton _, fun a ha b hb hab => by
          cases List.mem_singleton.1 hb
          exact hunshown (hab ▸ ha)⟩
      · rw [hlist]
        intro x hx
        rcases List.mem_append.1 hx with hx | hx
        · exact h.shown_mem x hx
        · exact ⟨seq, hdrawn, List.mem_singleton.1 hx⟩

/-- The calls that have begun only get more. -/
theorem begun_le_step (s : Counter ι) (e : Ev ι) : s.begun ≤ (s.step e).begun := by
  have heff := step_effect s e
  generalize s.step e = s' at heff
  cases heff with
  | begin i t hs hn => exact Nat.le_succ _
  | _ => exact le_rfl

/-- Every run of fewer than `2 ^ 63` calls keeps count and owners. -/
theorem run_inv (evs : List (Ev ι)) (hb : ((start : Counter ι).run evs).begun < 2 ^ 63) :
    ((start : Counter ι).run evs).Counts ∧ ((start : Counter ι).run evs).Owns := by
  induction evs using List.reverseRecOn with
  | nil => exact ⟨counts_start, owns_start⟩
  | append_singleton evs e ih =>
    have hrun : (start : Counter ι).run (evs ++ [e]) = ((start : Counter ι).run evs).step e :=
      run_append _ _ _
    rw [hrun] at hb ⊢
    obtain ⟨hc, ho⟩ := ih (lt_of_le_of_lt (begun_le_step _ e) hb)
    exact ⟨hc.step e hb, ho.step hc e⟩

/-- **Wire sequence numbers are unique and increasing.**  However the threads of a process
interleave their calls, whatever the random source returns and as long as fewer than `2 ^ 63` calls
begin: the numbers that `proto_next_sequence` yields are not 0, increase in the order of the
fetch-adds and so are pairwise distinct; and the headers and datagrams that the finished calls have
made, with every copy of a buffer that is sent to many peers, show pairwise distinct ones of these
numbers. -/
theorem sequence_numbers_unique (evs : List (Ev ι))
    (hb : ((start : Counter ι).run evs).begun < 2 ^ 63) :
    (∀ n ∈ ((start : Counter ι).run evs).drawn, n ≠ 0) ∧
    ((start : Counter ι).run evs).drawn.Pairwise (· < ·) ∧
    (∀ r ∈ ((start : Counter ι).run evs).made,
      ∃ n ∈ ((start : Counter ι).run evs).drawn, protoReadSequence r.2 = some n) ∧
    ((start : Counter ι).run evs).made.Pairwise
      fun r r' => protoReadSequence r.2 ≠ protoReadSequence r'.2 := by
  obtain ⟨hc, ho⟩ := run_inv evs hb
  generalize (start : Counter ι).run evs = s at hc ho
  refine ⟨fun n => hc.ne_zero, ?_, ?_, ?_⟩
  · have hsorted : (s.drawn.map UInt64.toNat).Pairwise (· < ·) := by
      rcases hc.numbers with ⟨-, hd⟩ | ⟨seed, -, -, -, hd⟩
      · rw [hd]
        exact .nil
      · rw [hd]
        exact List.pairwise_lt_range'
    exact (List.pairwise_map.1 hsorted).imp fun h => UInt64.lt_iff_toNat_lt.2 h
  · intro r hr
    exact ho.shown_mem _ (List.mem_map_of_mem hr)
  · exact List.pairwise_map.1 ho.nodup

/-- Two threads see the counter at 0; both make a seed, and the one that loses the compare-exchange
is the first to add. -/
def race : List (Ev Bool) :=
  let hdr := NumberedCall.writeHdr [] MsgType.keepalive.code 0
  let env := Env.plain 0 0
  [.call false hdr, .call true hdr, .run false env, .run true env, .run true env, .run false env,
    .run false env, .run true env, .run true env, .run false env, .run true env, .run false env]

theorem sequence_numbers_unique_race :
    ((start.run race).drawn.length = 2 ∧ (start.run race).made.length = 2) ∧
      (start.run race).drawn.Pairwise (· < ·) :=
  ⟨by decide +kernel, (sequence_numbers_unique race (by decide +kernel)).2.1⟩

end Counter

end Tund
