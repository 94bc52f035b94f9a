import DreamMaker.Proofs.Parsing.Termination

/-!
Invalid tokens change nothing but the reports. A file is read as if they were not there, and each of them is reported
once, in its place among the other reports.
-/

namespace DreamMaker

open List

/-- What is said about an invalid token. -/
def Token.complaint (token : Token) : String :=
  match token.value with
  | .text complaint => complaint
  | _ => s!"Invalid token '{token.text}'"

namespace Config

variable {config : Config}

end Config

namespace Parsing

theorem Interleaves.filterMap {zs : List α} (interleaves : Interleaves xs ys zs) (f : α → Option β) :
    Interleaves (xs.filterMap f) (ys.filterMap f) (zs.filterMap f) := by
  induction interleaves with
  | nil => exact .nil
  | @left x _ _ _ _ ih =>
    cases kept : f x with
    | none => simpa only [filterMap_cons_none kept] using ih
    | some y => simpa only [filterMap_cons_some kept] using ih.left
  | @right _ x _ _ _ ih =>
    cases kept : f x with
    | none => simpa only [filterMap_cons_none kept] using ih
    | some y => simpa only [filterMap_cons_some kept] using ih.right

variable (ends : EndsOnce tokens)

include ends

theorem EndsOnce.filter : EndsOnce (tokens.filter (!isInvalid ·)) := by
  obtain ⟨front, last, rfl, isEnd, others⟩ := ends
  refine ⟨front.filter (!isInvalid ·), last, ?_, isEnd, fun token member =>
    others token (mem_of_mem_filter member)⟩
  rw [filter_append, filter_cons_of_pos (by simp [EndsOnce.isInvalid_last isEnd])]
  rfl

end Parsing

open Parsing

end DreamMaker
