import Asap.Lib.Run
import Asap.Tsch.RingbufIndex

/-!
# A ring buffer between two contexts

The slot operation fills the elements of a ring buffer and the process context takes them, without a
lock and in any interleaving. The producer looks up the put position, writes the element in as many
steps as it likes, and puts it or looks up a position again; the consumer looks up the first element,
reads it, and removes it behind that.

## Main definitions

* `Channel`, `Channel.step` — the ring buffer with both sides, and their steps.

## Main results

* `channel_fifo` — what has been taken and what is in the buffer are what was put, in order.
-/

namespace Asap.Tsch

open Lib Function Option

/-- A ring buffer and its array, the positions that the two sides have looked up, what the consumer has
read, and all that was put and taken. -/
structure Channel (α : Type) where
  ringbuf : RingbufIndex
  array : ℕ → α
  input : Option ℕ
  output : Option ℕ
  read : Option α
  put : List α
  taken : List α

/-- The steps of the producer and of the consumer. -/
inductive ChannelEvent (α : Type)
  | peekPut | write (x : α) | put
  | peekGet | read | get

namespace Channel

variable {α : Type}

/-- A buffer of `2 ^ k` positions after `ringbufindex_init`. -/
def init (k : ℕ) (array : ℕ → α) : Channel α :=
  ⟨.init (BitVec.ofNat 8 (2 ^ k)), array, none, none, none, [], []⟩

/-- The channel after a step. A side without a position does nothing, and the consumer removes only
what it has read. -/
def step (s : Channel α) : ChannelEvent α → Option (Channel α)
  | .peekPut => some { s with input := s.ringbuf.peekPut }
  | .write x => s.input.map fun i => { s with array := update s.array i x }
  | .put => s.input.map fun i =>
    { s with ringbuf := s.ringbuf.put.1, input := none, put := s.put ++ [s.array i] }
  | .peekGet => some { s with output := s.ringbuf.peekGet, read := none }
  | .read => s.output.map fun i => { s with read := some (s.array i) }
  | .get => s.read.map fun x =>
    { s with ringbuf := s.ringbuf.get.1, output := none, read := none, taken := s.taken ++ [x] }

/-- The invariant: the positions looked up are still those of the ring buffer. -/
structure Ok (k : ℕ) (s : Channel α) : Prop where
  ringbuf : s.ringbuf.Ok k
  fifo : s.put = s.taken ++ s.ringbuf.contents s.array
  input : ∀ i ∈ s.input, s.ringbuf.peekPut = some i
  output : ∀ i ∈ s.output, s.ringbuf.peekGet = some i
  read : ∀ x ∈ s.read, (s.ringbuf.contents s.array).head? = some x

variable {k : ℕ} {s t : Channel α} {i : ℕ}

/-- There is room when there is a position to put at. -/
theorem room_of_peekPut {r : RingbufIndex} (h : r.Ok k) (hi : r.peekPut = some i) :
    r.elements < 2 ^ k - 1 := by
  by_contra hfull
  rw [(h.put_full hfull).2] at hi
  cases hi

/-- The first element is at the get position. -/
theorem head?_contents {r : RingbufIndex} (h : r.Ok k) (hi : r.peekGet = some i) (arr : ℕ → α) :
    0 < r.elements ∧ (r.contents arr).head? = some (arr i) := by
  have hpos : 0 < r.elements := by
    by_contra hzero
    rw [(RingbufIndex.get_of_empty (Nat.eq_zero_of_not_pos hzero)).1] at hi
    cases hi
  obtain rfl := Option.some.inj ((RingbufIndex.get_of_pos hpos).1.symm.trans hi)
  refine ⟨hpos, ?_⟩
  rw [List.head?_eq_getElem?, h.getElem?_contents hpos, Nat.add_zero, Nat.mod_eq_of_lt h.get]

/-- What is written at the put position is not seen yet. -/
theorem contents_write {r : RingbufIndex} (h : r.Ok k) (hi : r.peekPut = some i) (arr : ℕ → α)
    (x : α) : r.contents (update arr i x) = r.contents arr := by
  have hroom := room_of_peekPut h hi
  obtain rfl := Option.some.inj (hi.symm.trans (h.put_spec hroom).2.1)
  rw [RingbufIndex.contents, h.size_eq, Ring.window_update_of_le le_rfl (by omega)]
  rw [RingbufIndex.contents, h.size_eq]

theorem Ok.put (h : s.Ok k) (hi : s.input = some i) : Ok k { s with
    ringbuf := s.ringbuf.put.1, input := none, put := s.put ++ [s.array i] } := by
  have hpeek := h.input i hi
  have hroom := room_of_peekPut h.ringbuf hpeek
  obtain ⟨hput, -, hok, helements⟩ := h.ringbuf.put_spec hroom
  have hcontents : s.ringbuf.put.1.contents s.array = s.ringbuf.contents s.array ++ [s.array i] := by
    rw [← h.ringbuf.contents_put hroom (s.array i) hpeek, update_eq_self]
  refine ⟨hok, ?_, fun j hj => absurd hj (not_mem_none j), fun j hj => ?_, fun x hx => ?_⟩
  · simp only
    rw [hcontents, h.fifo, List.append_assoc]
  · obtain ⟨hpos, -⟩ := head?_contents h.ringbuf (h.output j hj) s.array
    have hget : s.ringbuf.put.1.getPtr = s.ringbuf.getPtr := by rw [hput]
    simp only
    rw [(RingbufIndex.get_of_pos (helements ▸ Nat.succ_pos _)).1, hget,
      ← (RingbufIndex.get_of_pos hpos).1, h.output j hj]
  · simp only
    rw [hcontents, List.head?_append, h.read x hx, some_or]

theorem Ok.get {x : α} (h : s.Ok k) (hx : s.read = some x) : Ok k { s with
    ringbuf := s.ringbuf.get.1, output := none, read := none, taken := s.taken ++ [x] } := by
  have hhead := h.read x hx
  obtain ⟨rest, hrest⟩ := List.head?_eq_some_iff.mp hhead
  have hpos : 0 < s.ringbuf.elements := by
    rw [← s.ringbuf.length_contents s.array, hrest]
    exact Nat.succ_pos _
  obtain ⟨-, -, hshift⟩ := RingbufIndex.get_of_pos hpos
  have hcontents : s.ringbuf.get.1.contents s.array = rest := by
    rw [hshift, h.ringbuf.contents_shiftGetPtr hpos, hrest]
    rfl
  refine ⟨hshift ▸ (h.ringbuf.shiftGetPtr_spec hpos).1, ?_,
    fun i hi => h.ringbuf.peekPut_get hpos (h.input i hi),
    fun i hi => absurd hi (not_mem_none i), fun y hy => absurd hy (not_mem_none y)⟩
  simp only
  rw [hcontents, h.fifo, hrest, List.append_assoc]
  rfl

/-- **Each step keeps the invariant.** -/
theorem Ok.step (h : s.Ok k) (e : ChannelEvent α) (hstep : s.step e = some t) : t.Ok k := by
  cases e with
  | peekPut =>
    obtain rfl := Option.some.inj hstep
    exact ⟨h.ringbuf, h.fifo, fun i hi => hi, h.output, h.read⟩
  | write x =>
    obtain ⟨i, hi, rfl⟩ := map_eq_some_iff.mp hstep
    have hsame := contents_write h.ringbuf (h.input i hi) s.array x
    exact ⟨h.ringbuf, h.fifo.trans (congrArg _ hsame.symm), h.input, h.output,
      fun y hy => (congrArg _ hsame).trans (h.read y hy)⟩
  | put =>
    obtain ⟨i, hi, rfl⟩ := map_eq_some_iff.mp hstep
    exact h.put hi
  | peekGet =>
    obtain rfl := Option.some.inj hstep
    exact ⟨h.ringbuf, h.fifo, h.input, fun i hi => hi, fun x hx => absurd hx (not_mem_none x)⟩
  | read =>
    obtain ⟨i, hi, rfl⟩ := map_eq_some_iff.mp hstep
    refine ⟨h.ringbuf, h.fifo, h.input, h.output, fun x hx => ?_⟩
    rw [← Option.some.inj hx]
    exact (head?_contents h.ringbuf (h.output i hi) s.array).2
  | get =>
    obtain ⟨x, hx, rfl⟩ := map_eq_some_iff.mp hstep
    exact h.get hx

theorem init_ok (hk : k ≤ 7) (array : ℕ → α) : (init k array).Ok k := by
  have hok := RingbufIndex.init_ok hk
  have hzero := hok.elements_unique (Nat.two_pow_pos k) (Nat.zero_mod _).symm
  have hempty : (init k array).ringbuf.contents array = [] :=
    List.eq_nil_of_length_eq_zero ((RingbufIndex.length_contents _ _).trans hzero)
  exact ⟨hok, hempty.symm, fun i hi => absurd hi (not_mem_none i),
    fun i hi => absurd hi (not_mem_none i), fun x hx => absurd hx (not_mem_none x)⟩

/-- **The buffer is a queue**, however the steps of its two sides interleave: what was put is what has
been taken and then what is in the buffer; what the consumer has read is the next element, though the
producer writes meanwhile; and the consumer finds no element only if all have been taken. -/
theorem channel_fifo (hk : k ≤ 7) (array : ℕ → α) {es : List (ChannelEvent α)}
    (hrun : run step (init k array) es = some s) :
    s.put = s.taken ++ s.ringbuf.contents s.array ∧ s.put.length < s.taken.length + 2 ^ k ∧
      (∀ x ∈ s.read, s.put[s.taken.length]? = some x) ∧
      (s.ringbuf.peekGet = none ↔ s.put = s.taken) := by
  have h : s.Ok k := run_invariant (Ok k) (fun _ e _ h hstep => h.step e hstep) (init_ok hk array) hrun
  have hlength : s.put.length = s.taken.length + s.ringbuf.elements := by
    rw [h.fifo, List.length_append, RingbufIndex.length_contents]
  refine ⟨h.fifo, ?_, fun x hx => ?_, ?_, fun heq => ?_⟩
  · have := h.ringbuf.elements_lt
    omega
  · rw [h.fifo, List.getElem?_append_right le_rfl, Nat.sub_self, ← List.head?_eq_getElem?]
    exact h.read x hx
  · intro hnone
    have hzero : s.ringbuf.elements = 0 := by
      by_contra hne
      rw [(RingbufIndex.get_of_pos (Nat.pos_of_ne_zero hne)).1] at hnone
      cases hnone
    rw [h.fifo, List.eq_nil_of_length_eq_zero ((s.ringbuf.length_contents s.array).trans hzero),
      List.append_nil]
  · exact (RingbufIndex.get_of_empty (by rw [heq] at hlength; omega)).1

/-- The second element is written while the first is read. -/
theorem channel_fifo_two : ∃ s : Channel ℕ, s.put = [5, 6] ∧ s.taken = [5] ∧
    s.put = s.taken ++ s.ringbuf.contents s.array :=
  ⟨_, rfl, rfl, (@channel_fifo ℕ 2 _ (by decide) (fun _ => 0) [.peekPut, .write 5, .put, .peekGet,
    .peekPut, .read, .write 6, .put, .get] rfl).1⟩

end Channel

end Asap.Tsch
