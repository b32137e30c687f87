import Gherkin.Load
import Gherkin.Report

/-
  Runs: a file is loaded and a report on it is written to a sink. A sink takes a limited number of
  bytes, and what it cannot take of a piece it takes in part.
-/

namespace Gherkin

/-- Where a report goes. -/
structure Sink where
  /-- How many bytes are taken in all, if that is limited. -/
  limit : Option Nat
  /-- What a write over the limit is answered with. -/
  full : String
  /-- What flushing is answered with, if it is refused. -/
  refusal : Option String

/-- A sink without a limit. -/
def Sink.endless : Sink := ⟨none, "", none⟩

/-- The bytes that are taken of some pieces while there is room, and the piece that did not fit. -/
def Report.write : Option Nat → List Report.Piece → List UInt8 × Option Report.Part
  | _, [] => ([], none)
  | none, p :: ps =>
    let (bytes, failed) := write none ps
    (Text.Utf8.encode p.text ++ bytes, failed)
  | some room, p :: ps =>
    let text := Text.Utf8.encode p.text
    if text.length ≤ room then
      let (bytes, failed) := write (some (room - text.length)) ps
      (text ++ bytes, failed)
    else (text.take room, some p.part)

/-- Why a run failed; a fault of the sink has the words of the sink. -/
inductive RunFault where
  | load (path : String) (fault : LoadFault)
  | write (part : Report.Part) (reason : String)
  | flush (reason : String)
deriving DecidableEq

/-- The wording of a failed run, with what lies under it. -/
def RunFault.chain : RunFault → String
  | load path fault => s!"failed to load {path}: {fault.chain}"
  | write part reason => s!"{part.failure}: {reason}"
  | flush reason => s!"failed to flush output: {reason}"

/-- What a run did: its events, the bytes that were taken, and how it ended. -/
structure RunOutcome where
  events : List Event
  output : List UInt8
  result : Except RunFault Unit

/-- Loads a file, given what reading it gave, and writes a report on it. -/
def run (path : String) (action : Action) (format : Format)
    (content : Except ReadFault (List UInt8)) (sink : Sink) : RunOutcome :=
  let loading := Feature.load path content
  match loading.result with
  | .error fault => ⟨loading.events, [], .error (.load path fault)⟩
  | .ok feature =>
    let events := loading.events ++ [.loaded path feature.scenarios.length]
    match Report.write sink.limit (Report.pieces action format feature) with
    | (bytes, some part) => ⟨events, bytes, .error (.write part sink.full)⟩
    | (bytes, none) =>
      match sink.refusal with
      | none => ⟨events, bytes, .ok ()⟩
      | some reason => ⟨events, bytes, .error (.flush reason)⟩

end Gherkin
