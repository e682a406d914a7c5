import ReadThrough.Scenario.Script

/-!
# Worlds

A `World` is what the steps of a script act on: the caches, the sources that were put behind
readers, with how often each entry of their plans was used, the readers by name, and a record of
what has happened. The record of source reads and of nested reports belongs to the step that is
being performed; notices go to one common list.
-/

namespace ReadThrough.Scenario

/-- The number of a source in its world. -/
abbrev SourceId := Nat

/-- A reader of a world. -/
structure Attachment (n : Nat) where
  view : View
  cache : Fin n
  source : SourceId

/-- Where a source of a world has its bytes from. -/
inductive Supply (n : Nat) where
  | content (content : Content)
  | file (file : File)
  /-- A reader, whatever its name comes to mean later. -/
  | reader (attachment : Attachment n)

/-- A source of a world. -/
structure Recorder (n : Nat) where
  name : String
  supply : Supply n
  /-- The hooks with how often each was used. -/
  hooks : List (Hook n × Nat)
  /-- The failures with how often each was used. -/
  failures : List (Failure × Nat)
  maxRead? : Option Nat
  excess : Nat

/-- The state of a cache as reports show it. -/
structure Status where
  counters : Counters
  residentPages : Nat
  freePages : Nat

/-- The state of a cache. -/
def Status.ofCache (cache : Cache) : Status :=
  ⟨cache.counters, cache.residentPages, cache.freePages⟩

/-- One read of a source. -/
structure SourceRead where
  name : String
  offset : Nat
  length : Nat

/-- What a move of a cursor gives. -/
inductive MoveAnswer where
  /-- The bytes that were read, or the error. -/
  | read (result : Except IoError Bytes)
  /-- The position that was sought, or the error. -/
  | seek (result : Except IoError Nat)

/-- What a step gives. -/
inductive Answer where
  | wrapped (view : View) (pageSize : Nat)
  /-- The bytes that were read, or the error with the bytes that were delivered before it. -/
  | read (result : Except (ReadError × Bytes) Bytes)
  /-- The bytes that were read, or the error. -/
  | readSource (result : Except IoError Bytes)
  /-- What each move gave, with the position after it. -/
  | cursor (moves : List (MoveAnswer × Nat))
  | shards (shards : List Nat)
  | inspect (cache : Cache)
  /-- The step broke off. -/
  | abandoned

/-- What a step did. -/
structure Report where
  answer : Answer
  /-- The caches when the step ended. -/
  status : List Status
  /-- The reads of sources, in order. -/
  reads : List SourceRead
  /-- The steps that the sources had performed meanwhile. -/
  nested : List Report

/-- `n` caches and all that a script has put around them. -/
structure World (n : Nat) where
  caches : Vector Cache n
  sources : Array (Recorder n) := #[]
  /-- The readers by name, the latest one first. -/
  readers : List (String × Attachment n) := []
  /-- The notices since they were last taken, the latest one first. -/
  notices : List Notice := []
  /-- The source reads of the step at hand, the latest one first. -/
  reads : List SourceRead := []
  /-- The nested reports of the step at hand, the latest one first. -/
  nested : List Report := []

/-- Actions in a world of `n` caches. -/
abbrev Session (n : Nat) := StateM (World n)

namespace World

variable {n : Nat}

/-- The reader of a name. -/
def reader? (w : World n) (name : String) : Option (Attachment n) := w.readers.lookup name

/-- The states of all caches. -/
def status (w : World n) : List Status := w.caches.toList.map .ofCache

/-- A cache of the world. -/
def cache (w : World n) (cache : Fin n) : Cache := w.caches.get cache

/-- Applies an operation to a cache. -/
def onCache {α : Type} (w : World n) (cache : Fin n) (act : Cache → α × Cache) : α × World n :=
  let (result, changed) := act (w.cache cache)
  (result, { w with caches := w.caches.set cache changed })

/-- Puts a reader on a new source under a name. -/
def attach (w : World n) (name : String) (view : View) (cache : Fin n) (source : Recorder n) :
    World n :=
  { w with
    sources := w.sources.push source
    readers := (name, ⟨view, cache, w.sources.size⟩) :: w.readers }

/-- Changes a source. -/
def modifySource (w : World n) (id : SourceId) (f : Recorder n → Recorder n) : World n :=
  { w with sources := w.sources.modify id f }

end World

/-- The first entry whose trigger applies to a read at `offset`, and all entries with that use
counted. -/
def takeFirst {α : Type} (trigger : α → Trigger) (offset : Nat) :
    List (α × Nat) → Option (α × List (α × Nat))
  | [] => none
  | (entry, uses) :: rest =>
    if (trigger entry).applies uses offset then some (entry, (entry, uses + 1) :: rest)
    else (takeFirst trigger offset rest).map fun (found, counted) =>
      (found, (entry, uses) :: counted)

/-- Takes the hook for a read at `offset`. -/
def takeHook {n : Nat} (id : SourceId) (offset : Nat) : Session n (Option (Hook n)) :=
  modifyGet fun w =>
    match w.sources[id]?.bind fun source => takeFirst Hook.trigger offset source.hooks with
    | some (hook, hooks) => (some hook, w.modifySource id ({ · with hooks }))
    | none => (none, w)

/-- Takes the failure for a read at `offset`. -/
def takeFailure {n : Nat} (id : SourceId) (offset : Nat) : Session n (Option Failure) :=
  modifyGet fun w =>
    match w.sources[id]?.bind fun source => takeFirst Failure.trigger offset source.failures with
    | some (failure, failures) => (some failure, w.modifySource id ({ · with failures }))
    | none => (none, w)

end ReadThrough.Scenario
