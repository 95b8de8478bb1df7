import LineHandshake.Fault
import LineHandshake.Milestone

/-!
A snapshot of a server run, as one printed line.
-/

namespace LineHandshake

structure Summary where
  port : Int
  progress : Progress
  outcome : Outcome
  error : Option Fault := none
deriving DecidableEq

namespace Summary

def isSuccess (s : Summary) : Bool := s.outcome = .completed

def isProtocolFailure (s : Summary) : Bool := s.outcome.isProtocolFailure

def errorText : Option Fault → Except Fault Text
  | none => .ok []
  | some e => e.shown.map fun t => text " [" ++ e.kind ++ text ": " ++ t ++ text "]"

/-- The line to print. There is none if the error cannot be shown. -/
def print (s : Summary) : Except Fault Text :=
  (errorText s.error).map fun t =>
    text "Handshake @" ++ Text.ofInt s.port ++ text ": " ++ s.outcome.name ++
      text " (progress=" ++ s.progress.name ++ text ")" ++ t ++ [CodePoint.lf]

def printed (s : Summary) : Text := s.print.toOption.getD []

end Summary

end LineHandshake
