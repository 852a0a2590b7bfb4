import AigisZero.Library.Thrift

/-!
# Writing to a channel of a fixed size

The output side of a protocol writes piece after piece into a buffer that
does not grow. What is written is the encodings one behind the other, as
long as all of them find room; the first that does not makes the writer
fail.
-/

namespace AigisZero.Thrift

/-- `TBufferChannel`, its write side: a buffer of a fixed size. -/
structure TBufferChannel where
  write_bytes : Bytes
  capacity : ℕ
deriving DecidableEq

namespace TBufferChannel

/-- `TBufferChannel::with_capacity`. -/
def with_capacity (write_capacity : ℕ) : TBufferChannel := ⟨[], write_capacity⟩

/-- `Write::write`: as many bytes as there is room for. -/
def write (t : TBufferChannel) (buf : Bytes) : ℕ × TBufferChannel :=
  let nwrite := min buf.length (t.capacity - t.write_bytes.length)
  (nwrite, { t with write_bytes := t.write_bytes ++ buf.take nwrite })

/-- `Write::write_all`: writes go on until one of them takes nothing. -/
def write_all (t : TBufferChannel) (buf : Bytes) : Except String TBufferChannel :=
  match buf with
  | [] => .ok t
  | x :: rest =>
    let nwrite := (t.write (x :: rest)).1
    if _h : nwrite = 0 then .error "failed to write whole buffer"
    else (t.write (x :: rest)).2.write_all ((x :: rest).drop nwrite)
termination_by buf.length
decreasing_by
  rw [List.length_drop, List.length_cons]
  have hpos : 0 < (t.write (x :: rest)).1 := Nat.pos_of_ne_zero _h
  omega

variable {t : TBufferChannel} {buf : Bytes}

@[simp] theorem write_all_nil : t.write_all [] = .ok t := by
  unfold write_all
  rfl

theorem write_all_cons {x : UInt8} {rest : Bytes} : t.write_all (x :: rest) =
    if (t.write (x :: rest)).1 = 0 then .error "failed to write whole buffer"
    else (t.write (x :: rest)).2.write_all ((x :: rest).drop (t.write (x :: rest)).1) := by
  conv_lhs => unfold write_all
  rfl

/-- A full channel takes nothing. -/
theorem write_all_of_full (hfull : t.capacity ≤ t.write_bytes.length) (hbuf : buf ≠ []) :
    t.write_all buf = .error "failed to write whole buffer" := by
  obtain ⟨x, rest, rfl⟩ := List.exists_cons_of_ne_nil hbuf
  have hnothing : (t.write (x :: rest)).1 = 0 := by
    show min (x :: rest).length (t.capacity - t.write_bytes.length) = 0
    omega
  rw [write_all_cons, if_pos hnothing]

/-- **All of it is written, or there is no room.** -/
theorem write_all_eq (t : TBufferChannel) (buf : Bytes)
    (ht : t.write_bytes.length ≤ t.capacity) :
    t.write_all buf =
      if t.write_bytes.length + buf.length ≤ t.capacity then
        .ok { t with write_bytes := t.write_bytes ++ buf }
      else .error "failed to write whole buffer" := by
  cases buf with
  | nil => simp [ht]
  | cons x rest =>
    have hfirst : (t.write (x :: rest)).1 =
        min (x :: rest).length (t.capacity - t.write_bytes.length) := rfl
    have hlength : (x :: rest).length = rest.length + 1 := List.length_cons
    by_cases hroom : t.write_bytes.length + (x :: rest).length ≤ t.capacity
    · have hall : (t.write (x :: rest)).1 = (x :: rest).length := by omega
      have hafter : (t.write (x :: rest)).2 =
          { t with write_bytes := t.write_bytes ++ (x :: rest).take (t.write (x :: rest)).1 } := rfl
      rw [write_all_cons, if_neg (by omega), if_pos hroom, hafter, hall, List.drop_length,
        List.take_length, write_all_nil]
    · rw [if_neg hroom]
      by_cases hfull : t.capacity ≤ t.write_bytes.length
      · exact write_all_of_full hfull (List.cons_ne_nil x rest)
      · -- the first write fills the channel, and leaves bytes over
        have hpart : (t.write (x :: rest)).1 = t.capacity - t.write_bytes.length := by omega
        rw [write_all_cons, if_neg (by omega)]
        refine write_all_of_full ?_ ?_
        · show t.capacity ≤ (t.write_bytes ++ (x :: rest).take (t.write (x :: rest)).1).length
          rw [List.length_append, List.length_take]
          omega
        · rw [ne_eq, List.drop_eq_nil_iff]
          omega

end TBufferChannel

/-! ## Output protocols -/

/-- What writes to a channel. -/
def Writer := TBufferChannel → Except String TBufferChannel

/-- **The writer writes the bytes**, where the channel has room for them. -/
def Writer.Writes (w : Writer) (b : Bytes) : Prop :=
  ∀ t : TBufferChannel, t.write_bytes.length ≤ t.capacity →
    if t.write_bytes.length + b.length ≤ t.capacity then
      w t = .ok { t with write_bytes := t.write_bytes ++ b }
    else ∃ e, w t = .error e

/-- One writer, and then another. -/
def Writer.then (w w' : Writer) : Writer := fun t => (w t).bind w'

/-- **Writers compose as encodings do.** -/
theorem Writer.Writes.then {w w' : Writer} {b b' : Bytes} (h : w.Writes b) (h' : w'.Writes b') :
    (w.then w').Writes (b ++ b') := by
  intro t ht
  have hfirst := h t ht
  unfold Writer.then
  rw [List.length_append]
  by_cases hroom : t.write_bytes.length + b.length ≤ t.capacity
  · rw [if_pos hroom] at hfirst
    have hsecond := h' { t with write_bytes := t.write_bytes ++ b } (by simpa using hroom)
    rw [hfirst]
    simp only [List.length_append, List.append_assoc, Nat.add_assoc] at hsecond
    exact hsecond
  · rw [if_neg hroom] at hfirst
    obtain ⟨e, he⟩ := hfirst
    rw [if_neg (by omega), he]
    exact ⟨e, rfl⟩

/-- **The output side of a protocol.** -/
structure TOutputProtocol where
  write_message_begin : TMessageIdentifier → Writer
  write_message_end : Writer
  write_struct_begin : String → Writer
  write_struct_end : Writer
  write_field_begin : String → TType → ℤ → Writer
  write_field_end : Writer
  write_field_stop : Writer
  write_string : String → Writer
  flush : Writer

/-- **The protocol writes the strict encodings.** -/
structure TOutputProtocol.IsBinary (Q : TOutputProtocol) : Prop where
  write_message_begin : ∀ m, (Q.write_message_begin m).Writes (messageHeader m)
  write_message_end : Q.write_message_end.Writes []
  write_struct_begin : ∀ name, (Q.write_struct_begin name).Writes []
  write_struct_end : Q.write_struct_end.Writes []
  write_field_begin : ∀ name t id, (Q.write_field_begin name t id).Writes (fieldHeader t id)
  write_field_end : Q.write_field_end.Writes []
  write_field_stop : Q.write_field_stop.Writes fieldStop
  write_string : ∀ s, (Q.write_string s).Writes (textCode s)
  flush : Q.flush.Writes []

namespace TOutputProtocol

/-- Bytes are written at once. -/
def put (b : Bytes) : Writer := fun t => t.write_all b

theorem writes_put (b : Bytes) : (put b).Writes b := by
  intro t ht
  have hall := TBufferChannel.write_all_eq t b ht
  split
  · next hroom => exact hall.trans (if_pos hroom)
  · next hroom => exact ⟨_, hall.trans (if_neg hroom)⟩

/-- `TBinaryOutputProtocol`, in its strict form. -/
def binary : TOutputProtocol where
  write_message_begin m := put (messageHeader m)
  write_message_end := put []
  write_struct_begin _ := put []
  write_struct_end := put []
  write_field_begin _ t id := put (fieldHeader t id)
  write_field_end := put []
  write_field_stop := put fieldStop
  write_string s := put (textCode s)
  flush := put []

theorem isBinary_binary : binary.IsBinary where
  write_message_begin _ := writes_put _
  write_message_end := writes_put _
  write_struct_begin _ := writes_put _
  write_struct_end := writes_put _
  write_field_begin _ _ _ := writes_put _
  write_field_end := writes_put _
  write_field_stop := writes_put _
  write_string _ := writes_put _
  flush := writes_put _

end TOutputProtocol

end AigisZero.Thrift
