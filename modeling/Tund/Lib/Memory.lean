import Tund.Lib.Bytes
import Tund.Lib.SlotTable

/-!
# Memory accesses that can go wrong

A C function that reads a buffer, indexes a table, fills an array or uses a buffer as a
string does not notice when it leaves its bounds.  Here every such access is an operation
in `Except Fault`, so that a function written with them completes exactly if it stays in
bounds.  To show that it does is to show that it equals the function without the checks.

* `byteAt`, `load`: reads of a buffer of known length;
* `store`: `out[count++] = x` into an array of `cap` elements, of which `count` are set;
* `entry`: an index into a table of `n` slots;
* `sub`: a difference of unsigned numbers;
* `cstring`: a buffer used as a C string.
-/

namespace Memory

/-- What an access can do wrong. -/
inductive Fault
  | read
  | store
  | index
  | underflow
  | unterminated
  deriving DecidableEq

variable {α : Type*}

/-- `a[i]` -/
def byteAt (a : Bytes) (i : ℕ) : Except Fault UInt8 :=
  match a[i]? with
  | some x => .ok x
  | none => .error .read

/-- The `n` bytes from `off` on, as `memcpy` reads them. -/
def load (a : Bytes) (off n : ℕ) : Except Fault Bytes :=
  if off + n ≤ a.length then .ok (Bytes.slice a off n) else .error .read

/-- `out[count++] = x` -/
def store (cap : ℕ) (out : List α) (x : α) : Except Fault (List α) :=
  if out.length < cap then .ok (out ++ [x]) else .error .store

/-- The slot with number `i`. -/
def entry (n : ℕ) (i : ℤ) : Except Fault (Fin n) :=
  if h : 0 ≤ i ∧ i < n then .ok ⟨i.toNat, by omega⟩ else .error .index

/-- `a - b` in an unsigned type. -/
def sub (a b : ℕ) : Except Fault ℕ := if b ≤ a then .ok (a - b) else .error .underflow

/-- The string in a buffer. -/
def cstring (a : Bytes) : Except Fault Bytes :=
  if 0 ∈ a then .ok (Bytes.cstr a) else .error .unterminated

theorem byteAt_eq {a : Bytes} {i : ℕ} (h : i < a.length) : byteAt a i = .ok (a.getD i 0) := by
  simp [byteAt, h]

theorem load_eq {a : Bytes} {off n : ℕ} (h : off + n ≤ a.length) :
    load a off n = .ok (Bytes.slice a off n) := if_pos h

theorem store_eq {cap : ℕ} {out : List α} {x : α} (h : out.length < cap) :
    store cap out x = .ok (out ++ [x]) := if_pos h

@[simp] theorem entry_val {n : ℕ} (i : Fin n) : entry n (i : ℤ) = .ok i := by
  simp [entry]

theorem sub_eq {a b : ℕ} (h : b ≤ a) : sub a b = .ok (a - b) := if_pos h

theorem cstring_eq {a : Bytes} (h : 0 ∈ a) : cstring a = .ok (Bytes.cstr a) := if_pos h

/-- Bytes that are read one by one. -/
theorem mapM_byteAt {a : Bytes} {off : ℕ} (n : ℕ) (h : off + n ≤ a.length) :
    (List.range n).mapM (fun i => byteAt a (off + i)) = .ok (Bytes.slice a off n) := by
  induction n with
  | zero => simp [Bytes.slice]; rfl
  | succ n ih =>
    have hlast : off + n < a.length := by omega
    have hslice : Bytes.slice a off (n + 1) = Bytes.slice a off n ++ [a.getD (off + n) 0] := by
      rw [Bytes.slice, Bytes.slice, List.take_add_one, List.getElem?_drop, List.getElem?_eq_getElem hlast]
      simp [hlast]
    rw [List.range_succ, List.mapM_append, ih (by omega), hslice]
    simp only [List.mapM_cons, List.mapM_nil, byteAt_eq hlast]
    rfl

/-! ### Loops -/

/-- `for (i = 0; i < n; i++) if (p(i)) { found = i; break; }` over the numbers that are left;
`-1` when none is found. -/
def scan (n : ℕ) (p : Fin n → Bool) : List ℕ → Except Fault ℤ
  | [] => .ok (-1)
  | i :: is => do
    let s ← entry n i
    if p s then .ok i else scan n p is

/-- The numbers of the slots, as a loop passes over them. -/
theorem range_eq_map (n : ℕ) : List.range n = (List.finRange n).map Fin.val := by
  simp

/-- The index that a scan returns for a slot. -/
def indexOf {n : ℕ} : Option (Fin n) → ℤ
  | none => -1
  | some i => i

theorem scan_eq (n : ℕ) (p : Fin n → Bool) :
    scan n p (List.range n) = .ok (indexOf (SlotTable.first p)) := by
  have h : ∀ slots : List (Fin n), scan n p (slots.map Fin.val) = .ok (indexOf (slots.find? p)) := by
    intro slots
    induction slots with
    | nil => rfl
    | cons i slots ih =>
      simp only [List.map_cons, scan, entry_val, List.find?_cons]
      show (if p i = true then Except.ok (i : ℤ) else scan n p (slots.map Fin.val)) = _
      cases hp : p i
      · simpa using ih
      · rfl
  rw [range_eq_map, h]
  rfl

end Memory
