import Disruptor.Sequencer.Basic

/-!
# `RingBuffer`, publishing with translators

A publishing call claims sequences, lets user code write the events, and publishes. What one
invocation of a translator does is an input of the model: how it changes the event, and whether
it throws. The history of claims and publications is kept with the ring.
-/

namespace Disruptor

variable {E ε ι : Type}

/-- One invocation of `translateTo`: what it writes, and what it throws. -/
structure Invocation (E ε : Type) where
  write : E → E
  thrown : Option ε := none

/-- `EventTranslator`: `translateTo(event, sequence)`. -/
abbrev EventTranslator (E ε : Type) := Int → Invocation E ε

/-- `EventTranslatorVararg`: `translateTo(event, sequence, args)`. -/
abbrev EventTranslatorVararg (E V ε : Type) := Int → List V → Invocation E ε

/-- `EventTranslatorOneArg`: `translateTo(event, sequence, arg0)`. -/
abbrev EventTranslatorOneArg (E A ε : Type) := Int → A → Invocation E ε

/-- `EventTranslatorTwoArg`: `translateTo(event, sequence, arg0, arg1)`. -/
abbrev EventTranslatorTwoArg (E A B ε : Type) := Int → A → B → Invocation E ε

/-- `EventTranslatorThreeArg`: `translateTo(event, sequence, arg0, arg1, arg2)`. -/
abbrev EventTranslatorThreeArg (E A B C ε : Type) := Int → A → B → C → Invocation E ε

/-- What a publishing call throws: the `std::invalid_argument` of `next(n)`, or what a translator
threw. -/
inductive Thrown (ε : Type) where
  | invalid_argument (message : String)
  | translator (e : ε)

/-- How a call exits. A call without a result returns `true`. -/
inductive Exit (ε : Type) where
  | returned (result : Bool)
  | threw (e : Thrown ε)

/-- What becomes of a call: it exits, it is left waiting for capacity, or it reads past the end
of a vector. -/
inductive Outcome (ε X : Type) where
  | exited (exit : Exit ε) (after : X)
  | waiting
  | undefined

/-- The ring, with the ranges that were claimed and the ranges that were published. -/
structure RingBuffer (E ι : Type) where
  sequencer : Sequencer ι
  entries : Int → E
  claims : List (Int × Int) := []
  publications : List (Int × Int) := []

namespace RingBuffer

/-- `hasAvailableCapacity(requiredCapacity)`. -/
def hasAvailableCapacity (rb : RingBuffer E ι) (requiredCapacity : Int) (values : ι → Int) :
    Bool × RingBuffer E ι :=
  let r := rb.sequencer.hasAvailableCapacity requiredCapacity values
  (r.1, { rb with sequencer := r.2 })

/-- `next(n)`. -/
def next (rb : RingBuffer E ι) (n : Int) (values : ι → Int) (passes : List (ι → Int)) :
    Option (Except String Int × (ι → Int) × RingBuffer E ι) :=
  (rb.sequencer.next n values passes).map fun
    | (.error e, values', q) => (.error e, values', { rb with sequencer := q })
    | (.ok hi, values', q) =>
      (.ok hi, values', { rb with sequencer := q, claims := (hi - n + 1, hi) :: rb.claims })

/-- `publish(sequence)`. -/
def publish (rb : RingBuffer E ι) (sequence : Int) : RingBuffer E ι :=
  { rb with
    sequencer := rb.sequencer.publish sequence
    publications := (sequence, sequence) :: rb.publications }

/-- `publish(lo, hi)`. -/
def publishRange (rb : RingBuffer E ι) (lo hi : Int) : RingBuffer E ι :=
  { rb with
    sequencer := rb.sequencer.publishRange lo hi
    publications := (lo, hi) :: rb.publications }

/-- `translateTo(get(sequence), sequence)`, as far as it gets. -/
def translate (rb : RingBuffer E ι) (sequence : Int) (i : Invocation E ε) : RingBuffer E ι :=
  let index := elementAt rb.sequencer.bufferSize sequence
  { rb with entries := Function.update rb.entries index (i.write (rb.entries index)) }

/-! ### One event -/

/-- The body that the overloads of `publishEvent` share. An exception of the translator leaves
the call before `publish`. -/
def publishEventWith (translateTo : Int → Invocation E ε) (rb : RingBuffer E ι) (values : ι → Int)
    (passes : List (ι → Int)) : Outcome ε (RingBuffer E ι × (ι → Int)) :=
  match rb.next 1 values passes with
  | none => .waiting
  | some (.error e, values', rb) => .exited (.threw (.invalid_argument e)) (rb, values')
  | some (.ok sequence, values', rb) =>
    let i := translateTo sequence
    match i.thrown with
    | some e => .exited (.threw (.translator e)) (rb.translate sequence i, values')
    | none => .exited (.returned true) ((rb.translate sequence i).publish sequence, values')

/-- The body that the overloads of `tryPublishEvent` share. -/
def tryPublishEventWith (translateTo : Int → Invocation E ε) (rb : RingBuffer E ι)
    (values : ι → Int) (passes : List (ι → Int)) : Outcome ε (RingBuffer E ι × (ι → Int)) :=
  let r := rb.hasAvailableCapacity 1 values
  if r.1 then publishEventWith translateTo r.2 values passes
  else .exited (.returned false) (r.2, values)

section Overloads

variable {A B C V : Type} (rb : RingBuffer E ι) (values : ι → Int) (passes : List (ι → Int))

def publishEvent (translator : EventTranslator E ε) :=
  publishEventWith translator rb values passes

def tryPublishEvent (translator : EventTranslator E ε) :=
  tryPublishEventWith translator rb values passes

def publishEventVararg (translator : EventTranslatorVararg E V ε) (args : List V) :=
  publishEventWith (fun sequence => translator sequence args) rb values passes

def tryPublishEventVararg (translator : EventTranslatorVararg E V ε) (args : List V) :=
  tryPublishEventWith (fun sequence => translator sequence args) rb values passes

def publishEventOneArg (translator : EventTranslatorOneArg E A ε) (arg0 : A) :=
  publishEventWith (fun sequence => translator sequence arg0) rb values passes

def tryPublishEventOneArg (translator : EventTranslatorOneArg E A ε) (arg0 : A) :=
  tryPublishEventWith (fun sequence => translator sequence arg0) rb values passes

def publishEventTwoArg (translator : EventTranslatorTwoArg E A B ε) (arg0 : A) (arg1 : B) :=
  publishEventWith (fun sequence => translator sequence arg0 arg1) rb values passes

def tryPublishEventTwoArg (translator : EventTranslatorTwoArg E A B ε) (arg0 : A) (arg1 : B) :=
  tryPublishEventWith (fun sequence => translator sequence arg0 arg1) rb values passes

def publishEventThreeArg (translator : EventTranslatorThreeArg E A B C ε) (arg0 : A) (arg1 : B)
    (arg2 : C) :=
  publishEventWith (fun sequence => translator sequence arg0 arg1 arg2) rb values passes

def tryPublishEventThreeArg (translator : EventTranslatorThreeArg E A B C ε) (arg0 : A) (arg1 : B)
    (arg2 : C) :=
  tryPublishEventWith (fun sequence => translator sequence arg0 arg1 arg2) rb values passes

end Overloads

/-! ### Batches -/

/-- `INT_MAX` -/
def INT_MAX : Int := 2 ^ 31 - 1

/-- `translators[static_cast<size_t>(index)]`; `none` past the ends of the vector, and when the sum
that `index` is overflows an `int`. -/
def translatorAt (translators : List (Option (EventTranslator E ε))) (index : Int) :
    Option (Option (EventTranslator E ε)) :=
  if index < 0 ∨ INT_MAX < index then none else translators[index.toNat]?

/-- The loop of `publishEvents`, from `i` for `count` translators; null pointers are skipped. -/
def translateBatch (translators : List (Option (EventTranslator E ε)))
    (batchStartsAt initialSequence : Int) (rb : RingBuffer E ι) (i : Int) :
    Nat → Outcome ε (RingBuffer E ι)
  | 0 => .exited (.returned true) rb
  | count + 1 =>
    match translatorAt translators (batchStartsAt + i) with
    | none => .undefined
    | some none => translateBatch translators batchStartsAt initialSequence rb (i + 1) count
    | some (some tr) =>
      let call := tr (initialSequence + i)
      let rb := rb.translate (initialSequence + i) call
      match call.thrown with
      | some e => .exited (.threw (.translator e)) rb
      | none => translateBatch translators batchStartsAt initialSequence rb (i + 1) count

/-- `publishEvents(translators, batchStartsAt, batchSize)`. The `catch` block publishes the same
range as the end of the function. -/
def publishEventsBatch (rb : RingBuffer E ι) (values : ι → Int) (passes : List (ι → Int))
    (translators : List (Option (EventTranslator E ε))) (batchStartsAt batchSize : Int) :
    Outcome ε (RingBuffer E ι × (ι → Int)) :=
  if batchSize = 0 then .exited (.returned true) (rb, values)
  else
    match rb.next batchSize values passes with
    | none => .waiting
    | some (.error e, values', rb) => .exited (.threw (.invalid_argument e)) (rb, values')
    | some (.ok finalSequence, values', rb) =>
      let initialSequence := finalSequence - (batchSize - 1)
      match translateBatch translators batchStartsAt initialSequence rb 0 batchSize.toNat with
      | .exited exit rb => .exited exit (rb.publishRange initialSequence finalSequence, values')
      | .waiting => .waiting
      | .undefined => .undefined

/-- `static_cast<int>(translators.size())`. -/
def sizeAsInt (translators : List (Option (EventTranslator E ε))) : Int :=
  (BitVec.ofInt 32 translators.length).toInt

/-- `publishEvents(translators)`. -/
def publishEvents (rb : RingBuffer E ι) (values : ι → Int) (passes : List (ι → Int))
    (translators : List (Option (EventTranslator E ε))) :=
  rb.publishEventsBatch values passes translators 0 (sizeAsInt translators)

/-- `tryPublishEvents(translators, batchStartsAt, batchSize)`. -/
def tryPublishEventsBatch (rb : RingBuffer E ι) (values : ι → Int) (passes : List (ι → Int))
    (translators : List (Option (EventTranslator E ε))) (batchStartsAt batchSize : Int) :
    Outcome ε (RingBuffer E ι × (ι → Int)) :=
  if batchSize = 0 then .exited (.returned true) (rb, values)
  else
    let r := rb.hasAvailableCapacity batchSize values
    if r.1 then r.2.publishEventsBatch values passes translators batchStartsAt batchSize
    else .exited (.returned false) (r.2, values)

/-- `tryPublishEvents(translators)`. -/
def tryPublishEvents (rb : RingBuffer E ι) (values : ι → Int) (passes : List (ι → Int))
    (translators : List (Option (EventTranslator E ε))) :=
  rb.tryPublishEventsBatch values passes translators 0 (sizeAsInt translators)

end RingBuffer

end Disruptor
