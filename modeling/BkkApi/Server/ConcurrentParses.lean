import BkkApi.Server.Api
import BkkApi.Server.StopTimes
import BkkApi.Verified.Run

/-!
# Parses at the same time

`std::localtime` writes its answer into the one buffer that the process has for
it, and returns a pointer to the buffer; `std::put_time` reads the buffer later.
A call that returns a null pointer may leave anything in the buffer.  Workers and
refresh threads parse at the same time, and one may convert between the two calls
of another.

The machine runs any number of parses over the one buffer.  Whatever the others
do, a parse returns what `parseArrivalsResponse` does for some readings of the
buffer (`parse_of_returned`), so that the calls of `Fetching`, whose `timeinfo`
is open, cover every interleaving (`fetch_of_returned`).  While no call leaves
another clock text in the buffer between the two calls of another parse, it is as
if each ran alone (`parse_of_returned_alone`), and every arrival has the clock
text of its own timestamp (`unmixed_while_alone`).
-/

namespace BkkApi.Server.ConcurrentParses

open BkkApi.Verified.CData
open BkkApi.Verified.Run
open BkkApi.Server.Protocol
open BkkApi.Server.ResponseParser
open BkkApi.Server.Api
open BkkApi.Server.StopTimes

/-! ## One parse -/

/-- Where a call of `parse_arrivals_response` is. -/
inductive Pc
  /-- At the head of the loop. -/
  | looping
  /-- In the body for `item` with the chosen time `time`, after `std::localtime`
  has returned the buffer or a null pointer. -/
  | converted (item : CJson) (time : Rat) (nonnull : Bool)
  | returned (status : ArrivalsParseStatus)

/-- A call of `parse_arrivals_response` with an output vector. -/
structure Parse where
  responseBody : Bytes
  response : Response
  /-- The loop counter, and the elements from there on. -/
  i : Nat
  rest : List CJson
  output : List Arrival
  skipped : Nat
  pc : Pc

/-- The checks before the loop: the status of the one that fails, or what the
loop goes over. -/
def locate (parsed : Option CJson) : Except ArrivalsParseStatus Response :=
  if parsed.isNone then .error .invalidJson
  else if !CJson.isObject parsed then .error .rootNotObject
  else if !CJson.isObject (dataOf parsed) then .error .missingDataObject
  else if !CJson.isObject (entryOf parsed) then .error .missingEntryObject
  else
    match CJson.arrayItems (stopTimesOf parsed) with
    | none => .error .stopTimesNotArray
    | some stopTimes => .ok
        { references :=
            CJson.getObjectItem (dataOf parsed) (bytesOf "references")
          currentTime := CJson.numberValue
            (CJson.getObjectItem parsed (bytesOf "currentTime"))
          stopTimes := stopTimes }

/-- A call that has not looked at any element. -/
def Parse.fresh (responseBody : Bytes) (response : Response)
    (rest : List CJson) (pc : Pc) : Parse where
  responseBody := responseBody
  response := response
  i := 0
  rest := rest
  output := []
  skipped := 0
  pc := pc

/-- `parse_arrivals_response` up to its loop. -/
def Parse.enter (cJsonParse : Bytes → Option CJson) (responseBody : Bytes) :
    Parse :=
  match locate (cJsonParse (cString responseBody)) with
  | .error status =>
      .fresh responseBody
        { references := none, currentTime := none, stopTimes := [] } []
        (.returned status)
  | .ok response =>
      let stopTimeCount := CJson.getArraySize response.stopTimes
      if stopTimeCount = 0 then
        .fresh responseBody response [] (.returned .emptyStopTimes)
      else
        .fresh responseBody response
          (response.stopTimes.take stopTimeCount.toNat) .looping

/-- `std::localtime`: the buffer afterwards, and whether the result points to
it.  Where it returns a null pointer, what it leaves in the buffer is not
specified: it is `left`. -/
def convert (localTime : Int → Option Tm) (left : Tm) (instant : Int) :
    Tm × Bool :=
  match localTime instant with
  | some tm => (tm, true)
  | none => (left, false)

/-- What the result of `std::localtime` points to. -/
def pointee (buffer : Tm) (nonnull : Bool) : Option Tm :=
  if nonnull then some buffer else none

/-- The rest of the body of the loop: formatting, and `push_back`. -/
def Parse.push (buffer : Tm) (p : Parse) (item : CJson) (time : Rat)
    (nonnull : Bool) : Parse :=
  { p with
    i := p.i + 1
    output := p.output ++
      [arrivalAt (fun _ => pointee buffer nonnull) p.response item time]
    pc := .looping }

/-- The next step of a parse, up to where it next uses the buffer: the buffer
and the parse afterwards. -/
def Parse.next (localTime : Int → Option Tm) (buffer left : Tm) (p : Parse) :
    Option (Tm × Parse) :=
  match p.pc with
  | .looping =>
      match p.rest with
      | [] =>
          some (buffer,
            { p with pc := .returned (afterLoop (p.output, p.skipped)).1 })
      | item :: rest =>
          let time :=
            if CJson.isObject (some item) then chosenTime (some item) else none
          match time with
          | none =>
              some (buffer,
                { p with i := p.i + 1, rest := rest, skipped := p.skipped + 1 })
          | some time =>
              let (buffer, nonnull) := convert localTime left (toLongLong time)
              some (buffer,
                { p with rest := rest, pc := .converted item time nonnull })
  | .converted item time nonnull =>
      some (buffer, p.push buffer item time nonnull)
  | .returned _ => none

/-- What one step of a parse can be. -/
inductive Moves (localTime : Int → Option Tm) (buffer left : Tm) (p : Parse) :
    Tm → Parse → Prop
  | skip {item : CJson} {rest : List CJson} (hpc : p.pc = .looping)
      (hrest : p.rest = item :: rest) (htime : chosenTime (some item) = none) :
      Moves localTime buffer left p buffer
        { p with i := p.i + 1, rest := rest, skipped := p.skipped + 1 }
  | convert {item : CJson} {rest : List CJson} {time : Rat}
      (hpc : p.pc = .looping) (hrest : p.rest = item :: rest)
      (htime : chosenTime (some item) = some time) :
      Moves localTime buffer left p (convert localTime left (toLongLong time)).1
        { p with
          rest := rest
          pc := .converted item time
            (convert localTime left (toLongLong time)).2 }
  | format {item : CJson} {time : Rat} {nonnull : Bool}
      (hpc : p.pc = .converted item time nonnull) :
      Moves localTime buffer left p buffer (p.push buffer item time nonnull)
  | finish (hpc : p.pc = .looping) (hrest : p.rest = []) :
      Moves localTime buffer left p buffer
        { p with pc := .returned (afterLoop (p.output, p.skipped)).1 }

variable {cJsonParse : Bytes → Option CJson} {localTime : Int → Option Tm}
  {buffer left buffer' : Tm} {p p' : Parse}

theorem moves_of_next (h : p.next localTime buffer left = some (buffer', p')) :
    Moves localTime buffer left p buffer' p' := by
  obtain ⟨responseBody, response, i, items, output, skipped, pc⟩ := p
  cases pc with
  | looping =>
      cases items with
      | nil => cases h; exact .finish rfl rfl
      | cons item rest =>
          have hobject : (if CJson.isObject (some item) then
              chosenTime (some item) else none) = chosenTime (some item) := by
            cases hobject : CJson.isObject (some item) with
            | true => rfl
            | false => exact (chosenTime_of_not_object hobject).symm
          simp only [Parse.next, hobject] at h
          cases htime : chosenTime (some item) with
          | none => rw [htime] at h; cases h; exact .skip rfl rfl htime
          | some time => rw [htime] at h; cases h; exact .convert rfl rfl htime
  | converted item time nonnull => cases h; exact .format rfl
  | returned status => cases h

/-! ## Against the sequential function -/

/-- What a parse that gets `timeinfo` from its readings will return. -/
def Parse.outcome (timeinfo : Nat → Int → Option Tm) (p : Parse) :
    ArrivalsParseStatus × List Arrival :=
  match p.pc with
  | .looping =>
      afterLoop (stopTimesLoop timeinfo p.response.references
        p.response.apiTimeS p.i p.rest (p.output, p.skipped))
  | .converted item time _ =>
      afterLoop (stopTimesLoop timeinfo p.response.references
        p.response.apiTimeS (p.i + 1) p.rest
        (p.output ++ [arrivalAt (timeinfo p.i) p.response item time],
          p.skipped))
  | .returned status => (status, p.output)

/-- The checks find a response, or the function returns the status of the one
that fails. -/
theorem locate_cases (cJsonParse : Bytes → Option CJson)
    (responseBody : Bytes) :
    (∃ response, locate (cJsonParse (cString responseBody)) = .ok response ∧
        Located (cJsonParse (cString responseBody)) response) ∨
      ∃ status, locate (cJsonParse (cString responseBody)) = .error status ∧
        ∀ timeinfo, parseArrivalsResponse cJsonParse timeinfo responseBody =
          (status, []) := by
  unfold locate parseArrivalsResponse
  cases cJsonParse (cString responseBody) with
  | none => exact .inr ⟨_, rfl, fun _ => rfl⟩
  | some root =>
  simp only [Option.isNone_some, Bool.false_eq_true, if_false]
  cases hroot : CJson.isObject (some root) with
  | false => exact .inr ⟨_, rfl, fun _ => rfl⟩
  | true =>
  cases hdata : CJson.isObject (dataOf (some root)) with
  | false =>
      simp only [dataOf] at hdata
      exact .inr ⟨.missingDataObject, by simp, by simp [hdata]⟩
  | true =>
  cases hentry : CJson.isObject (entryOf (some root)) with
  | false =>
      simp only [dataOf, entryOf] at hdata hentry
      exact .inr ⟨.missingEntryObject, by simp, by simp [hdata, hentry]⟩
  | true =>
  cases hstop : CJson.arrayItems (stopTimesOf (some root)) with
  | none =>
      simp only [dataOf, entryOf, stopTimesOf] at hdata hentry hstop
      exact .inr ⟨.stopTimesNotArray, by simp, by simp [hdata, hentry, hstop]⟩
  | some stopTimes =>
      exact .inl ⟨_, rfl, ⟨hroot, hdata, hentry, hstop, rfl, rfl⟩⟩

theorem outcome_fresh (timeinfo : Nat → Int → Option Tm)
    (responseBody : Bytes) (response : Response) (rest : List CJson) :
    (Parse.fresh responseBody response rest .looping).outcome timeinfo =
      afterLoop (stopTimesLoop timeinfo response.references response.apiTimeS 0
        rest ([], 0)) := rfl

/-- A parse that has been entered will return what the function returns. -/
theorem outcome_enter (timeinfo : Nat → Int → Option Tm)
    (responseBody : Bytes) :
    (Parse.enter cJsonParse responseBody).outcome timeinfo =
      parseArrivalsResponse cJsonParse timeinfo responseBody := by
  unfold Parse.enter
  rcases locate_cases cJsonParse responseBody with
    ⟨response, hlocate, hlocated⟩ | ⟨status, hlocate, hparse⟩
  · simp only [hlocate]
    rw [parse_of_located hlocated]
    by_cases hcount : CJson.getArraySize response.stopTimes = 0
    · rw [if_pos hcount, parseStopTimes_of_empty hcount]
      rfl
    · rw [if_neg hcount, parseStopTimes_of_ne hcount, outcome_fresh]
  · simp only [hlocate]
    rw [hparse]
    rfl

/-- A parse that has been entered has emitted nothing, and is at its loop or has
returned. -/
theorem enter_eq_fresh (cJsonParse : Bytes → Option CJson)
    (responseBody : Bytes) :
    ∃ response rest pc,
      Parse.enter cJsonParse responseBody =
          .fresh responseBody response rest pc ∧
        (pc = .looping ∨ ∃ status, pc = .returned status) := by
  unfold Parse.enter
  cases locate (cJsonParse (cString responseBody)) with
  | error status => exact ⟨_, _, _, rfl, .inr ⟨status, rfl⟩⟩
  | ok response =>
      by_cases hcount : CJson.getArraySize response.stopTimes = 0
      · simp only [if_pos hcount]
        exact ⟨_, _, _, rfl, .inr ⟨_, rfl⟩⟩
      · simp only [if_neg hcount]
        exact ⟨_, _, _, rfl, .inl rfl⟩

theorem enter_responseBody (cJsonParse : Bytes → Option CJson)
    (responseBody : Bytes) :
    (Parse.enter cJsonParse responseBody).responseBody = responseBody := by
  obtain ⟨response, rest, pc, henter, -⟩ :=
    enter_eq_fresh cJsonParse responseBody
  rw [henter]
  rfl

theorem stopTimeArrival_eq (localTime : Int → Option Tm) (response : Response)
    (item : CJson) :
    stopTimeArrival localTime response.references response.apiTimeS item =
      (chosenTime (some item)).map (arrivalAt localTime response item) :=
  arrivalOf_eq localTime response item

/-- An arrival depends on `timeinfo` through the clock text alone. -/
theorem arrivalAt_congr {localTime localTime' : Int → Option Tm}
    (response : Response) (item : CJson) {time : Rat}
    (h : clockText (localTime (toLongLong time)) =
      clockText (localTime' (toLongLong time))) :
    arrivalAt localTime response item time =
      arrivalAt localTime' response item time := by
  unfold arrivalAt
  rw [h]

/-- A step does not change what a parse will return, when what it reads has the
clock text that `timeinfo` says. -/
theorem Moves.outcome {timeinfo : Nat → Int → Option Tm}
    (h : Moves localTime buffer left p buffer' p')
    (hread : ∀ item time nonnull, p.pc = .converted item time nonnull →
      clockText (pointee buffer nonnull) =
        clockText (timeinfo p.i (toLongLong time))) :
    p'.outcome timeinfo = p.outcome timeinfo := by
  cases h with
  | skip hpc hrest htime | convert hpc hrest htime =>
      simp only [Parse.outcome, hpc, hrest, stopTimesLoop, stopTimeArrival_eq,
        htime, Option.map_none, Option.map_some]
  | @format item time nonnull hpc =>
      have hsame : arrivalAt (fun _ => pointee buffer nonnull) p.response item
          time = arrivalAt (timeinfo p.i) p.response item time :=
        arrivalAt_congr p.response item (hread item time nonnull hpc)
      simp only [Parse.outcome, Parse.push, hpc, hsame]
  | finish hpc hrest =>
      simp only [Parse.outcome, hpc, hrest, stopTimesLoop]
      exact Prod.ext rfl (afterLoop_snd (p.output, p.skipped)).symm

theorem Moves.responseBody (h : Moves localTime buffer left p buffer' p') :
    p'.responseBody = p.responseBody := by
  cases h with
  | skip | convert | format | finish => rfl

/-! ## The machine -/

/-- The buffer of `std::localtime`, and every parse so far. -/
structure Parses where
  buffer : Tm
  parses : List Parse

inductive Action
  /-- Some thread calls `parse_arrivals_response`. -/
  | enter (responseBody : Bytes)
  /-- The next step of parse `k`; if it is a call of `std::localtime` that
  returns a null pointer, the call leaves `left` in the buffer. -/
  | advance (k : Nat) (left : Tm)

section Machine

variable (cJsonParse : Bytes → Option CJson) (localTime : Int → Option Tm)

/-- One step. -/
def step (s : Parses) : Action → Option Parses
  | .enter responseBody =>
      some { s with parses := s.parses ++ [.enter cJsonParse responseBody] }
  | .advance k left =>
      (s.parses[k]?).bind fun p =>
        (p.next localTime s.buffer left).map fun (buffer, p) =>
          { buffer := buffer, parses := s.parses.set k p }

/-- All interleavings of parses. -/
def machine : Machine Parses Action where
  init s := s.parses = []
  step := step cJsonParse localTime

variable {cJsonParse localTime} {s t : Parses}

/-- What one step can be. -/
theorem step_cases {a : Action} (h : step cJsonParse localTime s a = some t) :
    (∃ responseBody, a = .enter responseBody ∧
        t = { s with
          parses := s.parses ++ [.enter cJsonParse responseBody] }) ∨
      ∃ k left p buffer p', a = .advance k left ∧ s.parses[k]? = some p ∧
        Moves localTime s.buffer left p buffer p' ∧
        t = { buffer := buffer, parses := s.parses.set k p' } := by
  cases a with
  | enter responseBody =>
      exact .inl ⟨responseBody, rfl, (Option.some.inj h).symm⟩
  | advance k left =>
      obtain ⟨p, hp, hnext⟩ := Option.bind_eq_some_iff.1 h
      obtain ⟨⟨buffer, p'⟩, hmoves, rfl⟩ := Option.map_eq_some_iff.1 hnext
      exact .inr ⟨k, left, p, buffer, p', rfl, hp, moves_of_next hmoves, rfl⟩

/-- An invariant of the single parses: it holds of one that has been entered, and
survives its moves. -/
theorem forall_parses_step {I : Parse → Prop}
    (henter : ∀ responseBody, I (.enter cJsonParse responseBody))
    (hmoves : ∀ p left buffer p', p ∈ s.parses → I p →
      Moves localTime s.buffer left p buffer p' → I p')
    {a : Action} (h : ∀ p ∈ s.parses, I p)
    (hstep : step cJsonParse localTime s a = some t) : ∀ p ∈ t.parses, I p := by
  rcases step_cases hstep with ⟨responseBody, rfl, rfl⟩ |
    ⟨k, left, p, buffer, p', rfl, hp, hmove, rfl⟩
  · intro q hq
    rcases List.mem_append.1 hq with hold | hnew
    · exact h q hold
    · rw [List.mem_singleton.1 hnew]
      exact henter responseBody
  · intro q hq
    rcases List.mem_or_eq_of_mem_set hq with hold | rfl
    · exact h q hold
    · have hmem := List.mem_of_getElem? hp
      exact hmoves p left buffer q hmem (h p hmem) hmove

/-- So it holds of every parse of every run. -/
theorem forall_parses_of_reachable {guard : Parses → Action → Prop}
    {I : Parse → Prop}
    (henter : ∀ responseBody, I (.enter cJsonParse responseBody))
    (hmoves : ∀ s p left buffer p',
      (machine cJsonParse localTime).ReachableIf guard s → p ∈ s.parses →
      I p → Moves localTime s.buffer left p buffer p' → I p')
    (h : (machine cJsonParse localTime).ReachableIf guard s) :
    ∀ p ∈ s.parses, I p := by
  apply Machine.ReachableIf.invariant (I := fun s => ∀ p ∈ s.parses, I p)
    ?_ ?_ h
  · intro s hnil p hp
    rw [hnil] at hp
    cases hp
  · intro s a t hreach _ hs hstep
    exact forall_parses_step henter
      (fun p left buffer p' => hmoves s p left buffer p' hreach) hs hstep

end Machine

/-! ## Any run -/

/-- A parse will return what the function returns, when `timeinfo` is what it
has read so far and then anything. -/
def Course (cJsonParse : Bytes → Option CJson) (p : Parse) : Prop :=
  ∃ read : Nat → Int → Option Tm, ∀ timeinfo : Nat → Int → Option Tm,
    (∀ j < p.i, timeinfo j = read j) →
      p.outcome timeinfo =
        parseArrivalsResponse cJsonParse timeinfo p.responseBody

theorem course_enter (responseBody : Bytes) :
    Course cJsonParse (.enter cJsonParse responseBody) := by
  refine ⟨fun _ _ => none, ?_⟩
  intro timeinfo _
  rw [outcome_enter, enter_responseBody]

theorem Course.moves (h : Course cJsonParse p)
    (hmoves : Moves localTime buffer left p buffer' p') : Course cJsonParse p' := by
  obtain ⟨read, hread⟩ := h
  have hsame : ∀ timeinfo : Nat → Int → Option Tm,
      (∀ item time nonnull, p.pc = .converted item time nonnull →
        clockText (pointee buffer nonnull) =
          clockText (timeinfo p.i (toLongLong time))) →
      p'.outcome timeinfo = p.outcome timeinfo := fun _ => hmoves.outcome
  cases hmoves with
  | skip hpc | convert hpc | finish hpc =>
      refine ⟨read, fun timeinfo hagree => ?_⟩
      have hpast : ∀ j < p.i, timeinfo j = read j := by
        intro j hj
        apply hagree
        dsimp only
        omega
      rw [hsame timeinfo (by simp [hpc])]
      exact hread timeinfo hpast
  | @format item time nonnull hpc =>
      -- what this step reads is the reading of element `p.i`
      refine ⟨Function.update read p.i fun _ => pointee buffer nonnull,
        fun timeinfo hagree => ?_⟩
      have hnow : timeinfo p.i = fun _ => pointee buffer nonnull := by
        rw [hagree p.i (Nat.lt_succ_self _), Function.update_self]
      have hpast : ∀ j < p.i, timeinfo j = read j := by
        intro j hj
        rw [hagree j (Nat.lt_succ_of_lt hj), Function.update_of_ne (by omega)]
      have hreads : ∀ item' time' nonnull',
          p.pc = .converted item' time' nonnull' →
          clockText (pointee buffer nonnull') =
            clockText (timeinfo p.i (toLongLong time')) := by
        intro item' time' nonnull' hpc'
        cases hpc.symm.trans hpc'
        rw [hnow]
      rw [hsame timeinfo hreads]
      exact hread timeinfo hpast

section Runs

variable {guard : Parses → Action → Prop} {s : Parses}

theorem course_of_reachable
    (h : (machine cJsonParse localTime).ReachableIf guard s) :
    ∀ p ∈ s.parses, Course cJsonParse p :=
  forall_parses_of_reachable course_enter
    (fun _ _ _ _ _ _ _ hcourse hmoves => hcourse.moves hmoves) h

/-- A parse that has returned did what the function does for some readings of
the buffer. -/
theorem parse_of_returned
    (h : (machine cJsonParse localTime).ReachableIf guard s) {p : Parse}
    (hp : p ∈ s.parses) {status : ArrivalsParseStatus}
    (hpc : p.pc = .returned status) :
    ∃ timeinfo, parseArrivalsResponse cJsonParse timeinfo p.responseBody =
      (status, p.output) := by
  obtain ⟨read, hread⟩ := course_of_reachable h p hp
  refine ⟨read, ?_⟩
  rw [← hread read fun _ _ => rfl, Parse.outcome, hpc]

/-- So a fetch whose reply is parsed among others is one that
`getArrivalsForStation` can make. -/
theorem fetch_of_returned
    (h : (machine cJsonParse localTime).ReachableIf guard s) {p : Parse}
    (hp : p ∈ s.parses) {status : ArrivalsParseStatus}
    (hpc : p.pc = .returned status) {stopId apiKey : Bytes} {curl : Curl}
    (hreply : getArrivalsForStop stopId apiKey curl =
      .ok (.ok, p.responseBody)) :
    ∃ timeinfo, getArrivalsForStation cJsonParse timeinfo stopId apiKey curl =
      (if isSuccessfulParseStatus status then .ok else .arrivalsParseFailed,
        p.output) := by
  obtain ⟨timeinfo, hparse⟩ := parse_of_returned h hp hpc
  exact ⟨timeinfo, getArrivalsForStation_of_parse hreply hparse⟩

end Runs

/-! ## Alone between the two calls -/

/-- Where the parse has a pointer to the buffer, the instant that it has
converted. -/
def Parse.converted? (p : Parse) : Option Int :=
  match p.pc with
  | .converted _ time true => some (toLongLong time)
  | _ => none

/-- What a call of `std::localtime` leaves in the buffer. -/
def written (localTime : Int → Option Tm) (s : Parses) : Action → Option Tm
  | .enter _ => none
  | .advance k left =>
      match s.parses[k]? with
      | none => none
      | some p =>
          match p.pc, p.rest with
          | .looping, item :: _ =>
              (chosenTime (some item)).map fun time =>
                (convert localTime left (toLongLong time)).1
          | _, _ => none

/-- A call of `std::localtime` leaves in the buffer only what has the clock text
of every parse that is between its two calls. -/
def ConvertsAlone (localTime : Int → Option Tm) (s : Parses) (a : Action) :
    Prop :=
  ∀ tm ∈ written localTime s a, ∀ p ∈ s.parses, ∀ instant ∈ p.converted?,
    clockText (some tm) = clockText (localTime instant)

instance (s : Parses) (a : Action) : Decidable (ConvertsAlone localTime s a) :=
  inferInstanceAs (Decidable (∀ tm ∈ _, ∀ p ∈ _, ∀ instant ∈ _, _ = _))

/-- The departure time of an arrival is the clock text of its timestamp. -/
def OwnTime (localTime : Int → Option Tm) (arrival : Arrival) : Prop :=
  arrival.departureTime =
    terminatedCopy _ (clockText (localTime arrival.timestamp))

instance (arrival : Arrival) : Decidable (OwnTime localTime arrival) :=
  inferInstanceAs (Decidable (_ = _))

/-- So it is in everything that parses have emitted. -/
def Unmixed (localTime : Int → Option Tm) (s : Parses) : Prop :=
  ∀ p ∈ s.parses, ∀ arrival ∈ p.output, OwnTime localTime arrival

/-- Whatever a parse is about to format has the clock text of the instant it has
converted. -/
def Undisturbed (localTime : Int → Option Tm) (buffer : Tm) (p : Parse) :
    Prop :=
  ∀ item time nonnull, p.pc = .converted item time nonnull →
    clockText (pointee buffer nonnull) =
      clockText (localTime (toLongLong time))

/-! ## Conforming runs -/

section Alone

variable {s t : Parses}

/-- Right after `std::localtime`, its result points to the answer. -/
theorem pointee_convert (localTime : Int → Option Tm) (left : Tm)
    (instant : Int) : pointee (convert localTime left instant).1
        (convert localTime left instant).2 = localTime instant := by
  unfold convert
  cases localTime instant with
  | none | some tm => rfl

/-- The buffer after a step of parse `k`. -/
theorem buffer_of_moves {k : Nat} (hp : s.parses[k]? = some p)
    (hmoves : Moves localTime s.buffer left p buffer p') :
    buffer = (written localTime s (.advance k left)).getD s.buffer := by
  cases hmoves with
  | skip hpc hrest htime => simp [written, hp, hpc, hrest, htime]
  | convert hpc hrest htime =>
      simp [written, hp, hpc, hrest, htime]
  | format hpc => simp [written, hp, hpc]
  | finish hpc hrest => simp [written, hp, hpc, hrest]

/-- A parse that moves is about to format what it has just converted, or
nothing. -/
theorem Moves.undisturbed (h : Moves localTime buffer left p buffer' p') :
    Undisturbed localTime buffer' p' := by
  intro item time nonnull hpc'
  cases h with
  | skip hpc => cases hpc.symm.trans hpc'
  | convert hpc hrest htime =>
      cases hpc'
      rw [pointee_convert]
  | format hpc | finish hpc => cases hpc'

/-- A parse that does not move is disturbed by a write of another clock text at
most. -/
theorem Undisturbed.write {tm? : Option Tm}
    (h : Undisturbed localTime buffer p)
    (halone : ∀ tm ∈ tm?, ∀ instant ∈ p.converted?,
      clockText (some tm) = clockText (localTime instant)) :
    Undisturbed localTime (tm?.getD buffer) p := by
  intro item time nonnull hpc
  have hold := h item time nonnull hpc
  cases nonnull with
  | false => exact hold
  | true =>
      cases tm? with
      | none => exact hold
      | some tm =>
          apply halone tm rfl
          rw [Parse.converted?, hpc]
          rfl

theorem undisturbed_enter (cJsonParse : Bytes → Option CJson)
    (responseBody : Bytes) :
    Undisturbed localTime buffer (.enter cJsonParse responseBody) := by
  obtain ⟨response, rest, pc, henter, hpc⟩ :=
    enter_eq_fresh cJsonParse responseBody
  intro item time nonnull hconverted
  rw [henter] at hconverted
  rcases hpc with rfl | ⟨status, rfl⟩ <;> cases hconverted

theorem undisturbed_step {a : Action}
    (h : ∀ p ∈ s.parses, Undisturbed localTime s.buffer p)
    (halone : ConvertsAlone localTime s a)
    (hstep : step cJsonParse localTime s a = some t) :
    ∀ p ∈ t.parses, Undisturbed localTime t.buffer p := by
  rcases step_cases hstep with ⟨responseBody, rfl, rfl⟩ |
    ⟨k, left, p, buffer, p', rfl, hp, hmoves, rfl⟩
  · intro q hq
    rcases List.mem_append.1 hq with hold | hnew
    · exact h q hold
    · rw [List.mem_singleton.1 hnew]
      exact undisturbed_enter cJsonParse responseBody
  · intro q hq
    rcases List.mem_or_eq_of_mem_set hq with hold | rfl
    · show Undisturbed localTime buffer q
      rw [buffer_of_moves hp hmoves]
      exact (h q hold).write fun tm htm => halone tm htm q hold
    · exact hmoves.undisturbed

/-- A step of a parse emits at most one arrival, with the clock text that it
reads. -/
theorem Moves.ownTime (h : Moves localTime buffer left p buffer' p')
    (hundisturbed : Undisturbed localTime buffer p)
    (hown : ∀ arrival ∈ p.output, OwnTime localTime arrival) :
    ∀ arrival ∈ p'.output, OwnTime localTime arrival := by
  cases h with
  | skip | convert | finish => exact hown
  | @format item time nonnull hpc =>
      intro arrival harrival
      rcases List.mem_append.1 harrival with hold | hnew
      · exact hown arrival hold
      · rw [List.mem_singleton.1 hnew]
        show terminatedCopy _ (clockText (pointee buffer nonnull)) = _
        rw [hundisturbed item time nonnull hpc]
        rfl

theorem ownTime_enter (responseBody : Bytes) :
    ∀ arrival ∈ (Parse.enter cJsonParse responseBody).output,
      OwnTime localTime arrival := by
  obtain ⟨response, rest, pc, henter, -⟩ :=
    enter_eq_fresh cJsonParse responseBody
  rw [henter]
  intro arrival harrival
  cases harrival

theorem Unmixed.step {a : Action} (h : Unmixed localTime s)
    (hundisturbed : ∀ p ∈ s.parses, Undisturbed localTime s.buffer p)
    (hstep : step cJsonParse localTime s a = some t) :
    Unmixed localTime t :=
  forall_parses_step ownTime_enter
    (fun p _ _ _ hp hown hmoves => hmoves.ownTime (hundisturbed p hp) hown) h
    hstep

/-! ## The step that mixes -/

theorem zero_not_mem_twoDigits (n : Nat) : 0 ∉ twoDigits n := by
  have hdigit : ∀ d < 10, UInt8.ofNat (48 + d) ≠ 0 := by decide
  intro h
  rcases List.mem_cons.1 h with hten | hone
  · exact hdigit _ (Nat.mod_lt _ (by decide)) hten.symm
  · exact hdigit _ (Nat.mod_lt _ (by decide)) (List.mem_singleton.1 hone).symm

/-- A clock text fits its field, and has no terminator in it. -/
theorem cString_clockText (tm? : Option Tm) :
    (cString (clockText tm?)).take (arrivalDepartureTimeMaxLen - 1) =
      clockText tm? := by
  have hzero : 0 ∉ clockText tm? := by
    cases tm? with
    | none => decide
    | some tm =>
        have hhour := zero_not_mem_twoDigits tm.tmHour
        have hmin := zero_not_mem_twoDigits tm.tmMin
        have hcolon : 0 ∉ bytesOf ":" := by decide
        simp [clockText, hhour, hmin, hcolon]
  have hlen : (clockText tm?).length ≤ arrivalDepartureTimeMaxLen - 1 := by
    cases tm? with
    | none => decide
    | some tm => exact Nat.le_of_ble_eq_true rfl
  have hread : cString (clockText tm?) = clockText tm? := by
    have happend := cString_append_of_not_mem hzero []
    simpa [cString] using happend
  rw [hread, List.take_of_length_le hlen]

theorem clockText_of_copy {tm? tm?' : Option Tm}
    (h : terminatedCopy arrivalDepartureTimeMaxLen (clockText tm?) =
      terminatedCopy arrivalDepartureTimeMaxLen (clockText tm?')) :
    clockText tm? = clockText tm?' := by
  have htexts := (terminatedCopy_inj (by decide)).1 h
  rw [cString_clockText, cString_clockText] at htexts
  exact htexts

/-- A parse that calls `std::localtime` is at its loop. -/
theorem looping_of_written {a : Action} {tm : Tm}
    (h : written localTime s a = some tm) :
    ∃ k left p, a = .advance k left ∧ s.parses[k]? = some p ∧
      p.pc = .looping := by
  cases a with
  | enter responseBody => cases h
  | advance k left =>
      simp only [written] at h
      cases hp : s.parses[k]? with
      | none => rw [hp] at h; cases h
      | some p =>
          refine ⟨k, left, p, rfl, hp, ?_⟩
          rw [hp] at h
          cases hpc : p.pc with
          | looping => rfl
          | converted item time nonnull | returned status =>
              simp [hpc] at h

theorem converted_of_converted? {instant : Int}
    (h : p.converted? = some instant) :
    ∃ item time, p.pc = .converted item time true ∧
      toLongLong time = instant := by
  unfold Parse.converted? at h
  cases hpc : p.pc with
  | looping | returned status => simp [hpc] at h
  | converted item time nonnull =>
      cases nonnull with
      | false => simp [hpc] at h
      | true =>
          rw [hpc] at h
          exact ⟨item, time, rfl, Option.some.inj h⟩

/-- After a step that writes another clock text between the two calls of a
parse, that parse can go on to emit an arrival with it. -/
theorem mixes_of_written {a : Action} {tm : Tm} {instant : Int} {q : Parse}
    (hwritten : written localTime s a = some tm) (hq : q ∈ s.parses)
    (hconverted : q.converted? = some instant)
    (hstep : step cJsonParse localTime s a = some t)
    (hnext : ∀ k left u,
      step cJsonParse localTime t (.advance k left) = some u →
      Unmixed localTime u) :
    clockText (some tm) = clockText (localTime instant) := by
  obtain ⟨k, left, p, rfl, hp, hpc⟩ := looping_of_written hwritten
  rcases step_cases hstep with ⟨responseBody, hne, -⟩ |
    ⟨k', left', p', buffer, moved, hk, hp', hmoves, rfl⟩
  · cases hne
  · cases hk
    cases Option.some.inj (hp.symm.trans hp')
    have hbuffer : buffer = tm := by
      rw [buffer_of_moves hp hmoves, hwritten]
      rfl
    subst hbuffer
    obtain ⟨item, time, hqpc, hinstant⟩ := converted_of_converted? hconverted
    obtain ⟨j, hj⟩ := List.getElem?_of_mem hq
    have hjk : k ≠ j := by
      intro heq
      rw [heq, hj] at hp
      cases Option.some.inj hp
      cases hpc.symm.trans hqpc
    -- parse `j` is left as it was, and formats next
    have hj' : (s.parses.set k moved)[j]? = some q := by
      rw [List.getElem?_set_ne hjk, hj]
    have hformat : q.next localTime buffer buffer =
        some (buffer, q.push buffer item time true) := by
      rw [Parse.next, hqpc]
    have hmixed := hnext j buffer
      { buffer := buffer
        parses := (s.parses.set k moved).set j (q.push buffer item time true) }
      (by simp only [step, hj', Option.bind_some, hformat, Option.map_some])
    have hpushed : q.push buffer item time true ∈
        (s.parses.set k moved).set j (q.push buffer item time true) :=
      List.mem_set ((List.getElem?_eq_some_iff.1 hj').1) _
    have hown := hmixed _ hpushed _
      (List.mem_append_right _ (List.mem_singleton.2 rfl))
    rw [← hinstant]
    exact clockText_of_copy hown

end Alone

/-! ## Runs in which parses convert alone -/

section Runs

variable {s : Parses}

theorem undisturbed_of_reachable
    (h : (machine cJsonParse localTime).ReachableIf (ConvertsAlone localTime)
      s) : ∀ p ∈ s.parses, Undisturbed localTime s.buffer p := by
  apply Machine.ReachableIf.invariant
    (I := fun s => ∀ p ∈ s.parses, Undisturbed localTime s.buffer p) ?_ ?_ h
  · intro s hnil p hp
    rw [hnil] at hp
    cases hp
  · intro s a t _ halone hs hstep
    exact undisturbed_step hs halone hstep

theorem unmixed_of_reachable
    (h : (machine cJsonParse localTime).ReachableIf (ConvertsAlone localTime)
      s) : Unmixed localTime s := by
  refine forall_parses_of_reachable ownTime_enter ?_ h
  intro s p left buffer p' hreach hp hown hmoves
  exact hmoves.ownTime (undisturbed_of_reachable hreach p hp) hown

/-- As long as parses convert alone, each will return what it would return if it
ran alone. -/
theorem outcome_of_reachable
    (h : (machine cJsonParse localTime).ReachableIf (ConvertsAlone localTime)
      s) : ∀ p ∈ s.parses, p.outcome (fun _ => localTime) =
      parseArrivalsResponse cJsonParse (fun _ => localTime)
        p.responseBody := by
  apply forall_parses_of_reachable (I := fun p => p.outcome
    (fun _ => localTime) = parseArrivalsResponse cJsonParse
      (fun _ => localTime) p.responseBody) ?_ ?_ h
  · intro responseBody
    rw [outcome_enter, enter_responseBody]
  · intro s p left buffer p' hreach hp hold hmoves
    have hsame : p'.outcome (fun _ => localTime) =
        p.outcome fun _ => localTime :=
      hmoves.outcome (undisturbed_of_reachable hreach p hp)
    rw [hsame, hmoves.responseBody, hold]

/-- And so it does. -/
theorem parse_of_returned_alone
    (h : (machine cJsonParse localTime).ReachableIf (ConvertsAlone localTime)
      s) {p : Parse} (hp : p ∈ s.parses) {status : ArrivalsParseStatus}
    (hpc : p.pc = .returned status) :
    parseArrivalsResponse cJsonParse (fun _ => localTime) p.responseBody =
      (status, p.output) := by
  rw [← outcome_of_reachable h p hp, Parse.outcome, hpc]

/-- As long as parses convert alone, every arrival emitted has the clock text of
its own timestamp; and the first step that leaves another clock text between the
two calls of a parse lets that parse emit one that has not. -/
theorem unmixed_while_alone
    (h : (machine cJsonParse localTime).ReachableIf (ConvertsAlone localTime)
      s) :
    Unmixed localTime s ∧
      ∀ a t, step cJsonParse localTime s a = some t →
        (ConvertsAlone localTime s a ↔
          ∀ k left u,
            step cJsonParse localTime t (.advance k left) = some u →
            Unmixed localTime u) := by
  have hunmixed := unmixed_of_reachable h
  have hundisturbed := undisturbed_of_reachable h
  refine ⟨hunmixed, ?_⟩
  intro a t hstep
  constructor
  · intro halone k left u hnext
    have hafter := undisturbed_step hundisturbed halone hstep
    exact (hunmixed.step hundisturbed hstep).step hafter hnext
  · intro hnext tm hwritten q hq instant hconverted
    exact mixes_of_written hwritten hq hconverted hstep hnext

end Runs

/-- Local time where it is that of the epoch.  An instant whose year does not fit
an `int` has no broken-down time. -/
def utc (instant : Int) : Option Tm :=
  if -67768040609740800 ≤ instant ∧ instant < 67768036191676800 then
    some
      { tmHour := (instant / 3600 % 24).toNat
        tmMin := (instant / 60 % 60).toNat }
  else none

/-- What a call for such an instant leaves in the buffer here. -/
def leftover : Tm := { tmHour := 8, tmMin := 29 }

/-- Two stop times, an hour apart, and one that has no broken-down time. -/
def hourApart : Response where
  references := none
  currentTime := none
  stopTimes := [60, 3660, 2 ^ 62].map arrivesAt

/-- The text of the response. -/
def hourApartText : Bytes :=
  bytesOf "\x7b\"data\":\x7b\"entry\":\x7b\"stopTimes\":[" ++
    bytesOf "\x7b\"arrivalTime\":60\x7d,\x7b\"arrivalTime\":3660\x7d," ++
    bytesOf "\x7b\"arrivalTime\":4611686018427387904\x7d]\x7d\x7d\x7d"

/-- Two parses of it convert the first stop time both before either formats it,
and parse 0 goes on alone. -/
theorem unmixed_while_alone_sample :
    ∃ s : Parses,
      (machine (knows hourApartText hourApart) utc).ReachableIf
        (ConvertsAlone utc) s ∧
      s.parses.map (fun p => p.output.length) = [3, 1] ∧ Unmixed utc s ∧
      ∀ a t, step (knows hourApartText hourApart) utc s a = some t →
        (ConvertsAlone utc s a ↔
          ∀ k left u,
            step (knows hourApartText hourApart) utc t (.advance k left) =
              some u → Unmixed utc u) := by
  obtain ⟨s, hreach, hs⟩ := Machine.exists_reachableIf_of_runIf
    (M := machine (knows hourApartText hourApart) utc)
    (s := { buffer := { tmHour := 0, tmMin := 0 }, parses := [] })
    (fun s a => of_decide_eq_true (p := ConvertsAlone utc s a)) rfl
    (l := [.enter hourApartText, .enter hourApartText] ++
      [0, 1, 0, 1, 0, 0, 0, 0].map (.advance · leftover))
    (p := fun s => decide (s.parses.map (fun p => p.output.length) = [3, 1]))
    (by decide +kernel)
  exact ⟨s, hreach, of_decide_eq_true hs, unmixed_while_alone hreach⟩

/-- Parse 1 converts the first stop time between the two calls of parse 0 for
the second, which is then said to leave an hour early. -/
theorem concurrent_parses_mix :
    ∃ s : Parses,
      (machine (knows hourApartText hourApart) utc).Reachable s ∧
      ∃ p ∈ s.parses, ∃ arrival ∈ p.output,
        arrival.timestamp = 3660 ∧
        arrival.departureTime = terminatedCopy _ (bytesOf "00:01") ∧
        ¬ OwnTime utc arrival := by
  obtain ⟨s, hreach, hs⟩ := Machine.exists_reachable_of_run
    (M := machine (knows hourApartText hourApart) utc)
    (s := { buffer := { tmHour := 0, tmMin := 0 }, parses := [] }) rfl
    (l := [.enter hourApartText, .enter hourApartText] ++
      [0, 0, 0, 1, 0].map (.advance · leftover))
    (p := fun s => decide (∃ p ∈ s.parses, ∃ arrival ∈ p.output,
      arrival.timestamp = 3660 ∧
      arrival.departureTime = terminatedCopy _ (bytesOf "00:01") ∧
      ¬ OwnTime utc arrival))
    (by decide +kernel)
  exact ⟨s, hreach, of_decide_eq_true hs⟩

end BkkApi.Server.ConcurrentParses
