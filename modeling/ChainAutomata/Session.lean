/-
Sessions: building patterns, settings and automata step by step.

A session holds current settings, at most one pattern and at most one factory, and a growing list
of automata.  A factory hands out the automaton that it was made with: every handle that comes from
one factory is the same one, while each compilation of its own makes a new one.  Handles are told
apart by a serial number (`Handle.serial`).

* `Session.extend`, `Session.compile`, `Session.makeFactory`, `Session.create` — the steps that
  change a session.  A step that fails leaves the session as it was.
-/
import ChainAutomata.Compilation
import ChainAutomata.Outline
import ChainAutomata.Snapshot

universe u v

namespace ChainAutomata

/-- An automaton that can be shared: handles with one serial number share it. -/
structure Handle (ε : Type u) where
  serial : Nat
  automaton : Automaton ε

/-- The state of a session. -/
structure Session (ε : Type u) where
  settings : Settings := {}
  pattern : Option (Pattern ε) := none
  factory : Option (Handle ε) := none
  automata : List (Handle ε) := []
  /-- The serial number of the next handle that shares with no other. -/
  nextSerial : Nat := 0

/-- What a step needs and a session does not have. -/
inductive Lack where
  | pattern
  | factory
  | automaton
  deriving DecidableEq, Repr

namespace Session

variable {ε : Type u}

/-- Starts a new pattern. -/
def begin (s : Session ε) (name : String) : Session ε × Pattern ε :=
  let p : Pattern ε := .begin name
  ({ s with pattern := some p }, p)

/-- The current pattern. -/
def current (s : Session ε) : Except Lack (Pattern ε) :=
  match s.pattern with
  | none => .error .pattern
  | some p => .ok p

/-- Applies a call to the current pattern. -/
def extend (s : Session ε) (c : Pattern.Call ε) : Except Lack (Session ε × Pattern ε) :=
  match s.pattern with
  | none => .error .pattern
  | some p => .ok ({ s with pattern := some (p.call c) }, p.call c)

/-- Replaces the settings. -/
def withSettings (s : Session ε) (settings : Settings) : Session ε := { s with settings }

/-- Adds a handle to the list; the answer is its place in the list. -/
def keep (s : Session ε) (h : Handle ε) : Session ε × Nat :=
  ({ s with automata := s.automata ++ [h] }, s.automata.length)

/-- The outcome of compiling the current pattern, with the notices on the way. -/
structure Outcome (ε : Type u) (α : Type v) where
  session : Session ε
  result : Except Failure α
  notices : List Notice

/-- Compiles the current pattern and keeps the automaton under a handle of its own. -/
def compile (s : Session ε) : Except Lack (Outcome ε (Nat × Nat)) :=
  match s.pattern with
  | none => .error .pattern
  | some p =>
    let compiled := ChainAutomata.compile s.settings p
    match compiled.1 with
    | .error failure => .ok ⟨s, .error failure, compiled.2⟩
    | .ok a =>
      let kept := { s with nextSerial := s.nextSerial + 1 }.keep ⟨s.nextSerial, a⟩
      .ok ⟨kept.1, .ok (kept.2, a.size), compiled.2⟩

/-- Makes a factory of the current pattern. -/
def makeFactory (s : Session ε) (settings : Settings) :
    Except Lack (Outcome ε Unit) :=
  match s.pattern with
  | none => .error .pattern
  | some p =>
    let compiled := ChainAutomata.compile settings p
    match compiled.1 with
    | .error failure => .ok ⟨s, .error failure, compiled.2⟩
    | .ok a =>
      .ok ⟨{ s with factory := some ⟨s.nextSerial, a⟩, nextSerial := s.nextSerial + 1 },
        .ok (), compiled.2⟩

/-- Keeps a handle from the factory; the answer is its place in the list and the number of
states. -/
def create (s : Session ε) : Except Lack (Session ε × Nat × Nat) :=
  match s.factory with
  | none => .error .factory
  | some h =>
    let kept := s.keep h
    .ok (kept.1, kept.2, h.automaton.size)

/-- Forgets the factory; handles that came from it stay. -/
def dropFactory (s : Session ε) : Session ε := { s with factory := none }

/-- The handle at a place in the list. -/
def handle (s : Session ε) (place : Nat) : Except Lack (Handle ε) :=
  match s.automata[place]? with
  | none => .error .automaton
  | some h => .ok h

end Session

end ChainAutomata
