import Inferno.Sio.Stream
import Mathlib.Data.List.ReduceOption
import Mathlib.Data.List.TakeDrop

/-!
# Playing audio

`apple_mca_out_callback` of `hw/audio/apple-silicon/mca.c` moves bytes from the transmit channel to
the receive channel and to the voice, piece by piece. What is taken is not put back when one of the
two takes less, so that it is lost.
-/

namespace Inferno.Mca

open Common List

/-- What the calls in the body of the loop have to do with. -/
structure Piece where
  /-- What the transmit channel has to read. -/
  data : List UInt8
  /-- How many bytes the receive channel has room for. -/
  room : ℕ
  /-- How many bytes the voice accepts. -/
  accepts : ℕ

/-- What has been moved, and how much is to be played. A byte of silence is `none`. -/
structure AppleMCAState where
  taken : List UInt8
  given : List (Option UInt8)
  played : List (Option UInt8)
  toPlay : ℕ

variable (s : AppleMCAState)

namespace Piece

variable (p : Piece) (chunk : ℕ)

/-- What `temp` holds. -/
def temp : List (Option UInt8) :=
  if p.data.take chunk = [] then replicate chunk none else (p.data.take chunk).map some

def given : List (Option UInt8) := (p.temp chunk).take p.room

def written : List (Option UInt8) := (p.given chunk).take p.accepts

/-- Where the channels are endpoints of `Sio`, what a piece says is what their calls move. -/
theorem eq_of_conserves {tx rx : Fin Sio.SIO_NUM_EPS} {c c' : Sio.Call} {s : Sio.AppleSIOState}
    {r w : Sio.Transfer} (hr : c.Conserves tx s r) (hw : c'.Conserves rx r.s w)
    (hdata : p.data = r.moved.map (·.2)) (hroom : p.room = (r.s.eps rx).pending.length)
    (hlen : c'.len.toNat = (p.temp c.len.toNat).length)
    (hclient : c'.client = .write fun k => ((p.temp c.len.toNat).getD k none).getD 0) :
    p.data.take c.len.toNat = r.moved.map (·.2) ∧
      (p.given c.len.toNat).map (·.getD 0) = w.moved.map (·.2) := by
  constructor
  · have hle : r.moved.length ≤ c.len.toNat := by
      rw [hr.length, hr.actual_len]
      exact min_le_left _ _
    rw [hdata, take_of_length_le (by rwa [length_map])]
  · rw [hw.write _ hclient, hw.length, hw.actual_len, hlen, given, hroom]
    refine ext_getElem (by simp [min_comm]) fun k hk _ => ?_
    have hlt : k < (p.temp c.len.toNat).length := by simp at hk; omega
    simp [hlt]

end Piece

inductive Op
  /-- The callback is called with `avail`. -/
  | outCallback (avail : Int)
  /-- The body of its loop; `break` leaves nothing to play. -/
  | loop (p : Piece)

def chunk : ℕ := min s.toPlay 32768

def step : Op → AppleMCAState
  | .outCallback avail => { s with toPlay := avail.toNat }
  | .loop p =>
    if s.toPlay = 0 then s else
      let written := p.written (chunk s)
      { taken := s.taken ++ p.data.take (chunk s)
        given := s.given ++ p.given (chunk s)
        played := s.played ++ written
        toPlay := if written.length < (p.temp (chunk s)).length then 0
          else s.toPlay - written.length }

/-- What is taken is played once and in order, and what is given is what is played. -/
def Conserved : Prop := s.played.reduceOption = s.taken ∧ s.given = s.played

/-- The receive channel has room for what is read, and the voice accepts what that takes. -/
def Whole : Op → Prop
  | .outCallback _ => True
  | .loop p => s.toPlay = 0 ∨
    (p.data.take (chunk s)).length ≤ p.room ∧ (p.given (chunk s)).length ≤ p.accepts

theorem Piece.reduceOption_given (p : Piece) (chunk : ℕ) :
    (p.given chunk).reduceOption = (p.data.take chunk).take p.room := by
  unfold given temp
  split_ifs with hnone
  · simp [hnone]
  · simp [← map_take, reduceOption]

variable {s}

theorem conserved_step_iff (h : Conserved s) (op : Op) : Conserved (step s op) ↔ Whole s op := by
  cases op with
  | outCallback avail => exact iff_of_true h trivial
  | loop p =>
    rw [step]
    split_ifs with hplay
    · exact iff_of_true h (.inl hplay)
    · rw [Conserved, Whole, or_iff_right hplay]
      rw [reduceOption_append, h.1, h.2, append_cancel_left_eq, append_cancel_left_eq,
        Piece.written, take_self_eq_iff]
      refine and_congr_left fun haccepts => ?_
      rw [take_of_length_le haccepts, p.reduceOption_given, take_eq_self_iff]

/-- Bytes are conserved exactly as long as each piece goes through whole. -/
theorem audio_conserved_iff {ops : List Op} :
    Throughout step Conserved ⟨[], [], [], 0⟩ ops ↔ Guarded step Whole ⟨[], [], [], 0⟩ ops :=
  throughout_iff_guarded (fun _ op h => conserved_step_iff h op) ⟨rfl, rfl⟩

/-- The receive channel has no room for the byte that is taken. -/
theorem audio_lost : ¬ Throughout step Conserved ⟨[], [], [], 0⟩
    [.outCallback 1, .loop ⟨[1], 0, 1⟩] := by
  rintro ⟨-, -, h, -⟩
  cases h

end Inferno.Mca
