import Mathlib.Algebra.Ring.Nat
import Mathlib.Data.List.Basic
import Mathlib.Tactic.Common

/-! Streams of frames: a header of fixed length says how long the body behind it is, or that
there is no more to decode. -/
namespace Framing

structure Format (B : Type) where
  header : Nat
  size : List B → Option Nat
  positive : 0 < header

variable {B : Type}

/-- The bodies of the frames that are complete in `stream`. -/
def Format.decode (F : Format B) (stream : List B) : List (List B) :=
  if stream.length < F.header then []
  else
    match F.size (stream.take F.header) with
    | none => []
    | some n =>
      let rest := stream.drop F.header
      if rest.length < n then [] else rest.take n :: F.decode (rest.drop n)
termination_by stream.length
decreasing_by
  have := F.positive
  simp only [List.length_drop]
  omega

def Format.decodeBody (F : Format B) (n : Nat) (stream : List B) : List (List B) :=
  if stream.length < n then [] else stream.take n :: F.decode (stream.drop n)

/-- A complete header decides what comes next, whatever follows it. -/
theorem Format.decode_header (F : Format B) (stream rest : List B) (complete : F.header ≤ stream.length) :
    F.decode (stream ++ rest) =
      match F.size (stream.take F.header) with
      | none => []
      | some n => F.decodeBody n (stream.drop F.header ++ rest) := by
  have long : ¬(stream ++ rest).length < F.header := by
    rw [List.length_append]
    omega
  rw [Format.decode,if_neg long,List.take_append_of_le_length complete,
    List.drop_append_of_le_length complete]
  rfl

/-- A complete body is one of those decoded. -/
theorem Format.decodeBody_complete (F : Format B) (n : Nat) (stream rest : List B) (complete : n ≤ stream.length) :
    F.decodeBody n (stream ++ rest) = stream.take n :: F.decode (stream.drop n ++ rest) := by
  have long : ¬(stream ++ rest).length < n := by
    rw [List.length_append]
    omega
  rw [Format.decodeBody,if_neg long,List.take_append_of_le_length complete,
    List.drop_append_of_le_length complete]

/-- What is too short for a header decodes to nothing. -/
theorem Format.decode_short (F : Format B) (stream : List B) (short : stream.length < F.header) :
    F.decode stream = [] := by
  rw [Format.decode,if_pos short]

inductive Format.Framed (F : Format B) : List (List B) → List B → Prop where
  | nil : F.Framed [] []
  | cons {head body rest : List B} {bodies : List (List B)} (length : head.length = F.header)
    (size : F.size head = some body.length) (framed : F.Framed bodies rest) :
    F.Framed (body :: bodies) (head ++ (body ++ rest))

section Framed
variable {F : Format B} {first second : List B} {bodies more : List (List B)}

/-- Whole frames are decoded, whatever follows them. -/
theorem Format.Framed.decode (framed : F.Framed bodies first) (rest : List B) :
    F.decode (first ++ rest) = bodies ++ F.decode rest := by
  induction framed with
  | nil => rfl
  | @cons head body tail bodies length size _ ih =>
    rw [List.append_assoc,List.append_assoc,F.decode_header head _ (Nat.le_of_eq length.symm),
      List.take_of_length_le (Nat.le_of_eq length),size,List.drop_eq_nil_of_le (Nat.le_of_eq length)]
    change F.decodeBody body.length (body ++ (tail ++ rest)) = _
    rw [F.decodeBody_complete body.length body _ (Nat.le_refl _),List.take_length,List.drop_length]
    exact congrArg (List.cons body) ih

theorem Format.Framed.append (left : F.Framed bodies first) (right : F.Framed more second) :
    F.Framed (bodies ++ more) (first ++ second) := by
  induction left with
  | nil => exact right
  | cons length size _ ih =>
    rw [List.append_assoc,List.append_assoc]
    exact .cons length size ih

/-- The bodies say how long the stream is. -/
theorem Format.Framed.length (framed : F.Framed bodies first) :
    first.length = (bodies.map fun body => F.header + body.length).sum := by
  induction framed with
  | nil => rfl
  | cons length size _ ih =>
    simp only [List.length_append,List.map_cons,List.sum_cons,length,ih]
    omega

theorem Format.Framed.decode_all (framed : F.Framed bodies first) : F.decode first = bodies := by
  have decoded := framed.decode []
  rw [List.append_nil,F.decode_short [] F.positive,List.append_nil] at decoded
  exact decoded

end Framed
end Framing
