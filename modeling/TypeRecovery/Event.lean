/-
  TypeRecovery.Event — what a run tells its log.

  Each stage of a solve says what it did. An event has a level, the stage it comes from and
  a message; who runs the stages decides which levels are shown.
-/

import TypeRecovery.Report

namespace TypeRecovery

inductive Level where
  | debug
  | info
  | warning
  deriving DecidableEq, Repr

namespace Level

def name : Level → String
  | .debug => "DEBUG"
  | .info => "INFO"
  | .warning => "WARNING"

def rank : Level → Nat
  | .debug => 0
  | .info => 1
  | .warning => 2

end Level

inductive Stage where
  | reading
  | language
  | graph
  | saturation
  | partition
  | sketches
  | solver
  deriving DecidableEq, Repr

def Stage.name : Stage → String
  | .reading => "tscl"
  | .language => "tscl.parser"
  | .graph => "typesketch.constraint_graph"
  | .saturation => "typesketch.saturation"
  | .partition => "typesketch.equivalence"
  | .sketches => "typesketch.sketches"
  | .solver => "typesketch.solver"

structure Event where
  level : Level
  stage : Stage
  message : String
  deriving DecidableEq, Repr

namespace Event

def line (e : Event) : String := e.level.name ++ " " ++ e.stage.name ++ ": " ++ e.message

end Event

end TypeRecovery
