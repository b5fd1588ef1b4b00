import BkkApi.Verified.Strtol
import BkkApi.Verified.Getopt
import BkkApi.Server.Cache

/-!
# Command line options

`parse_arguments` of `bkk_arg_parser.cpp`: a `getopt` loop over three numeric
options, each read by `parse_positive_int`, and a check of the two windows
against each other after the loop.

`parseArguments_sound` is what its callers rely on: a configuration that comes
out has its fields in range and in order, each the value of the last occurrence
of its option or the default, and no configuration comes out otherwise.
`exists_soundConfig` hands it to the cache.
-/

namespace BkkApi.Server.ArgParser

open BkkApi.Verified.CData
open BkkApi.Verified.Strtol
open BkkApi.Verified.Getopt
open BkkApi.Server.Cache

/-! ## The functions -/

/-- `arg_config_t`. -/
structure ArgConfig where
  freshnessSeconds : Int
  stalenessSeconds : Int
  maxCacheSize : Int
  deriving DecidableEq

/-- `parse_status_t`. -/
inductive ParseStatus
  | ok
  | error
  | help
  deriving DecidableEq

/-- `parse_positive_int`: `*out_value` where it returns true. -/
def parsePositiveInt (arg : Option Bytes) : Option Int :=
  match arg with
  | none => none
  | some text =>
      let conversion := strtol text
      if conversion.erange = true ∨ conversion.endptr = text ∨
          conversion.endptr ≠ [] then none
      else if conversion.value ≤ 0 ∨ intMax < conversion.value then none
      else some conversion.value

/-- The option string of the `getopt` call. -/
def optstring : Bytes := bytesOf "f:s:l:h"

/-- The option characters. -/
def optFreshness : UInt8 := 102
def optStaleness : UInt8 := 115
def optMaxCacheSize : UInt8 := 108
def optHelp : UInt8 := 104

/-- The local variables before the loop. -/
def ArgConfig.defaults : ArgConfig where
  freshnessSeconds := 10
  stalenessSeconds := 20
  maxCacheSize := 100

/-- `if(!parse_positive_int(optarg, &variable)) return error`, where `set` writes
the variable. -/
def readInto (optarg : Option Bytes) (set : Int → ArgConfig) :
    Except ParseStatus ArgConfig :=
  match parsePositiveInt optarg with
  | none => .error .error
  | some value => .ok (set value)

/-- The body of the loop: the `switch` over the option, which goes on with the
local variables or returns a status. -/
def parseOption (vars : ArgConfig) (ret : Return) :
    Except ParseStatus ArgConfig :=
  if ret.opt = optFreshness then
    readInto ret.optarg fun value => { vars with freshnessSeconds := value }
  else if ret.opt = optStaleness then
    readInto ret.optarg fun value => { vars with stalenessSeconds := value }
  else if ret.opt = optMaxCacheSize then
    readInto ret.optarg fun value => { vars with maxCacheSize := value }
  else if ret.opt = optHelp then .error .help
  else .error .error

/-- `parse_arguments`: the status, and `*config_out` afterwards. -/
def parseArguments (order : ArgOrder) (argv : List Bytes) (configOut : ArgConfig) :
    ParseStatus × ArgConfig :=
  match loop optstring parseOption ArgConfig.defaults (Scan.start order argv) with
  | .error status => (status, configOut)
  | .ok vars =>
      if vars.stalenessSeconds < vars.freshnessSeconds then (.error, configOut)
      else (.ok, vars)

/-! ## One option -/

/-- The options that the calls to `getopt` find. -/
def optionsOf (order : ArgOrder) (argv : List Bytes) : List Return :=
  returns optstring (Scan.start order argv)

/-- A numeral that `parse_positive_int` may accept: a decimal notation of a number
from one to `INT_MAX`. -/
structure PositiveInt (text : Bytes) (value : Int) : Prop where
  decimal : ∃ n : Nat, Decimal text n ∧ value = n
  pos : 1 ≤ value
  le_intMax : value ≤ intMax

theorem PositiveInt.ne_nil {text : Bytes} {value : Int}
    (h : PositiveInt text value) : text ≠ [] := by
  intro hnil
  obtain ⟨n, hdecimal, -⟩ := h.decimal
  obtain ⟨spaces, sign, digits, htext, -, -, hne, -⟩ := hdecimal.parts
  rw [hnil] at htext
  simp only [List.nil_eq, List.append_eq_nil_iff] at htext
  exact hne htext.2.2

/-- `parse_positive_int` accepts exactly those. -/
theorem parsePositiveInt_eq_some_iff {arg : Option Bytes} {value : Int} :
    parsePositiveInt arg = some value ↔
      ∃ text, arg = some text ∧ PositiveInt text value := by
  constructor
  · intro h
    cases arg with
    | none => cases h
    | some text =>
        unfold parsePositiveInt at h
        dsimp only at h
        by_cases hread : (strtol text).erange = true ∨
            (strtol text).endptr = text ∨ (strtol text).endptr ≠ []
        · rw [if_pos hread] at h
          cases h
        · rw [if_neg hread] at h
          by_cases hrange : (strtol text).value ≤ 0 ∨ intMax < (strtol text).value
          · rw [if_pos hrange] at h
            cases h
          · rw [if_neg hrange] at h
            have hvalue : (strtol text).value = value := Option.some.inj h
            have hdecimal := decimal_of_strtol
              (fun heq => hread (Or.inr (Or.inl heq)))
              (Classical.not_not.1 fun hne => hread (Or.inr (Or.inr hne)))
              (Bool.eq_false_iff.2 fun htrue => hread (Or.inl htrue))
              (by omega)
            rw [hvalue] at hdecimal hrange
            obtain ⟨n, hn, htext⟩ := hdecimal
            exact ⟨text, rfl, ⟨n, htext, hn⟩, by omega, by omega⟩
  · intro h
    obtain ⟨text, harg, hpositive⟩ := h
    obtain ⟨n, hdecimal, hvalue⟩ := hpositive.decimal
    have hpos := hpositive.pos
    have hle := hpositive.le_intMax
    have hmax : (n : Int) ≤ longMax := by
      unfold intMax at hle
      unfold longMax
      omega
    have hstrtol := strtol_of_decimal hdecimal hmax
    have hne : [] ≠ text := hpositive.ne_nil.symm
    rw [harg, parsePositiveInt]
    simp only [hstrtol]
    rw [if_neg (by simp [hne]), if_neg (by omega), hvalue]

theorem positiveInt_of_parse {text : Bytes} {value : Int}
    (h : parsePositiveInt (some text) = some value) : PositiveInt text value := by
  obtain ⟨text', htext, hpositive⟩ := parsePositiveInt_eq_some_iff.1 h
  rw [Option.some.inj htext]
  exact hpositive

theorem readInto_ok {optarg : Option Bytes} {set : Int → ArgConfig}
    {vars : ArgConfig} (h : readInto optarg set = .ok vars) :
    ∃ value, parsePositiveInt optarg = some value ∧ vars = set value := by
  unfold readInto at h
  cases hvalue : parsePositiveInt optarg with
  | none =>
      rw [hvalue] at h
      cases h
  | some value =>
      rw [hvalue] at h
      exact ⟨value, rfl, (Except.ok.inj h).symm⟩

/-- What the body of the loop does where it goes on: the argument is a positive
number, and goes to the variable of the option. -/
theorem parseOption_cases {vars vars' : ArgConfig} {ret : Return}
    (h : parseOption vars ret = .ok vars') :
    ∃ value, parsePositiveInt ret.optarg = some value ∧
      ((ret.opt = optFreshness ∧ vars' = { vars with freshnessSeconds := value }) ∨
        (ret.opt = optStaleness ∧
          vars' = { vars with stalenessSeconds := value }) ∨
        (ret.opt = optMaxCacheSize ∧
          vars' = { vars with maxCacheSize := value })) := by
  unfold parseOption at h
  by_cases hf : ret.opt = optFreshness
  · rw [if_pos hf] at h
    obtain ⟨value, hvalue, hset⟩ := readInto_ok h
    exact ⟨value, hvalue, Or.inl ⟨hf, hset⟩⟩
  · by_cases hs : ret.opt = optStaleness
    · rw [if_neg hf, if_pos hs] at h
      obtain ⟨value, hvalue, hset⟩ := readInto_ok h
      exact ⟨value, hvalue, Or.inr (Or.inl ⟨hs, hset⟩)⟩
    · by_cases hl : ret.opt = optMaxCacheSize
      · rw [if_neg hf, if_neg hs, if_pos hl] at h
        obtain ⟨value, hvalue, hset⟩ := readInto_ok h
        exact ⟨value, hvalue, Or.inr (Or.inr ⟨hl, hset⟩)⟩
      · rw [if_neg hf, if_neg hs, if_neg hl] at h
        split at h <;> cases h

/-- Where it returns, the status is not `ok`. -/
theorem parseOption_error {vars : ArgConfig} {ret : Return} {status : ParseStatus}
    (h : parseOption vars ret = .error status) : status ≠ .ok := by
  intro hok
  rw [hok] at h
  unfold parseOption readInto at h
  repeat' split at h
  all_goals cases h

/-! ## The loop -/

/-- `value` is the one that the last occurrence of the option `c` gives, and the
one before the loop without any. -/
structure FieldValue (rets : List Return) (c : UInt8) (before value : Int) :
    Prop where
  absent : lastReturn rets c = none → value = before
  given : ∀ ret, lastReturn rets c = some ret →
    ∃ text, ret.optarg = some text ∧ PositiveInt text value

/-- An occurrence in front sets what the others find before them. -/
theorem FieldValue.cons_self {ret : Return} {rest : List Return} {c : UInt8}
    {before value given : Int} (hopt : ret.opt = c)
    (hgiven : parsePositiveInt ret.optarg = some given)
    (h : FieldValue rest c given value) :
    FieldValue (ret :: rest) c before value := by
  constructor
  · intro habsent
    rw [lastReturn_cons, if_pos hopt] at habsent
    simp at habsent
  · intro last hlast
    rw [lastReturn_cons, if_pos hopt] at hlast
    cases hrest : lastReturn rest c with
    | some later =>
        rw [hrest] at hlast
        have hlater : later = last := Option.some.inj hlast
        rw [← hlater]
        exact h.given later hrest
    | none =>
        rw [hrest] at hlast
        have hself : ret = last := Option.some.inj hlast
        rw [← hself, h.absent hrest]
        exact parsePositiveInt_eq_some_iff.1 hgiven

/-- An occurrence of another option does not matter. -/
theorem FieldValue.cons_of_ne {ret : Return} {rest : List Return} {c : UInt8}
    {before value : Int} (hne : ret.opt ≠ c) (h : FieldValue rest c before value) :
    FieldValue (ret :: rest) c before value := by
  have hlast : lastReturn (ret :: rest) c = lastReturn rest c := by
    rw [lastReturn_cons, if_neg hne, Option.or_none]
  constructor
  · rw [hlast]
    exact h.absent
  · rw [hlast]
    exact h.given

/-- A value that was in range stays in range. -/
theorem FieldValue.range {rets : List Return} {c : UInt8} {before value : Int}
    (h : FieldValue rets c before value) (hbefore : 1 ≤ before ∧ before ≤ intMax) :
    1 ≤ value ∧ value ≤ intMax := by
  cases hlast : lastReturn rets c with
  | none =>
      rw [h.absent hlast]
      exact hbefore
  | some ret =>
      obtain ⟨text, -, hpositive⟩ := h.given ret hlast
      exact ⟨hpositive.pos, hpositive.le_intMax⟩

/-- What a loop that runs to its end has made of the variables. -/
structure LoopResult (rets : List Return) (vars final : ArgConfig) : Prop where
  numerals : ∀ ret ∈ rets, ∃ text value, ret.optarg = some text ∧
    PositiveInt text value
  freshness : FieldValue rets optFreshness vars.freshnessSeconds
    final.freshnessSeconds
  staleness : FieldValue rets optStaleness vars.stalenessSeconds
    final.stalenessSeconds
  maxCacheSize : FieldValue rets optMaxCacheSize vars.maxCacheSize
    final.maxCacheSize

/-- Without an occurrence nothing changes. -/
theorem FieldValue.nil (c : UInt8) (value : Int) : FieldValue [] c value value where
  absent := fun _ => rfl
  given := fun ret hlast => by cases hlast

theorem loopResult_of_fold {rets : List Return} {vars final : ArgConfig}
    (h : rets.foldlM parseOption vars = .ok final) : LoopResult rets vars final := by
  induction rets generalizing vars with
  | nil =>
      have hsame : vars = final := Except.ok.inj h
      rw [hsame]
      exact
        { numerals := fun ret hmem => by cases hmem
          freshness := FieldValue.nil _ _
          staleness := FieldValue.nil _ _
          maxCacheSize := FieldValue.nil _ _ }
  | cons ret rest ih =>
      obtain ⟨vars', hbody, hrest⟩ := foldlM_cons_ok h
      have hloop := ih hrest
      obtain ⟨value, hvalue, hset⟩ := parseOption_cases hbody
      have hnumerals : ∀ ret' ∈ ret :: rest, ∃ text value,
          ret'.optarg = some text ∧ PositiveInt text value := by
        intro ret' hmem
        rcases List.mem_cons.1 hmem with heq | hlater
        · obtain ⟨text, htext, hpositive⟩ := parsePositiveInt_eq_some_iff.1 hvalue
          rw [heq]
          exact ⟨text, value, htext, hpositive⟩
        · exact hloop.numerals ret' hlater
      -- one variable is set by the option in front, the other two are not
      rcases hset with ⟨hopt, hvars⟩ | ⟨hopt, hvars⟩ | ⟨hopt, hvars⟩
      · rw [hvars] at hloop
        exact
          { numerals := hnumerals
            freshness := hloop.freshness.cons_self hopt hvalue
            staleness := hloop.staleness.cons_of_ne (by rw [hopt]; decide)
            maxCacheSize := hloop.maxCacheSize.cons_of_ne (by rw [hopt]; decide) }
      · rw [hvars] at hloop
        exact
          { numerals := hnumerals
            freshness := hloop.freshness.cons_of_ne (by rw [hopt]; decide)
            staleness := hloop.staleness.cons_self hopt hvalue
            maxCacheSize := hloop.maxCacheSize.cons_of_ne (by rw [hopt]; decide) }
      · rw [hvars] at hloop
        exact
          { numerals := hnumerals
            freshness := hloop.freshness.cons_of_ne (by rw [hopt]; decide)
            staleness := hloop.staleness.cons_of_ne (by rw [hopt]; decide)
            maxCacheSize := hloop.maxCacheSize.cons_self hopt hvalue }

/-! ## The whole command line -/

/-- A configuration that is sound for a command line: in range and in order, with
the values of the last occurrence of each option. -/
structure SoundFor (order : ArgOrder) (argv : List Bytes) (config : ArgConfig) :
    Prop where
  freshness_pos : 1 ≤ config.freshnessSeconds
  freshness_le_staleness : config.freshnessSeconds ≤ config.stalenessSeconds
  staleness_le : config.stalenessSeconds ≤ intMax
  maxCacheSize_pos : 1 ≤ config.maxCacheSize
  maxCacheSize_le : config.maxCacheSize ≤ intMax
  values : LoopResult (optionsOf order argv) ArgConfig.defaults config

theorem parseArguments_ok {order : ArgOrder} {argv : List Bytes}
    {before config : ArgConfig}
    (h : parseArguments order argv before = (.ok, config)) :
    SoundFor order argv config := by
  unfold parseArguments at h
  rw [loop_eq_foldlM] at h
  cases hfold : (returns optstring (Scan.start order argv)).foldlM parseOption
      ArgConfig.defaults with
  | error status =>
      rw [hfold] at h
      have hok : status = .ok := congrArg Prod.fst h
      obtain ⟨vars, ret, -, hfails⟩ := exists_of_foldlM_error hfold
      exact absurd hok (parseOption_error hfails)
  | ok vars =>
      rw [hfold] at h
      dsimp only at h
      have hloop := loopResult_of_fold hfold
      by_cases horder : vars.stalenessSeconds < vars.freshnessSeconds
      · rw [if_pos horder] at h
        cases h
      · rw [if_neg horder] at h
        have hvars : vars = config := congrArg Prod.snd h
        rw [hvars] at hloop horder
        have hfreshness := hloop.freshness.range ⟨by decide, by decide⟩
        have hstaleness := hloop.staleness.range ⟨by decide, by decide⟩
        have hmax := hloop.maxCacheSize.range ⟨by decide, by decide⟩
        exact
          { freshness_pos := hfreshness.1
            freshness_le_staleness := Int.not_lt.1 horder
            staleness_le := hstaleness.2
            maxCacheSize_pos := hmax.1
            maxCacheSize_le := hmax.2
            values := hloop }

/-- Without a configuration, `*config_out` is left alone. -/
theorem parseArguments_not_ok {order : ArgOrder} {argv : List Bytes}
    {before config : ArgConfig} {status : ParseStatus}
    (h : parseArguments order argv before = (status, config))
    (hstatus : status ≠ .ok) : config = before := by
  unfold parseArguments at h
  split at h
  · exact (congrArg Prod.snd h).symm
  · split at h
    · exact (congrArg Prod.snd h).symm
    · exact absurd (congrArg Prod.fst h).symm hstatus

/-- A configuration that comes out of the option parser is sound for the command
line, and without one `*config_out` is left alone. -/
theorem parseArguments_sound (order : ArgOrder) (argv : List Bytes)
    (before : ArgConfig) :
    (∀ config, parseArguments order argv before = (.ok, config) →
        SoundFor order argv config) ∧
      ∀ status config, parseArguments order argv before = (status, config) →
        status ≠ .ok → config = before :=
  ⟨fun _ h => parseArguments_ok h,
    fun _ _ h hstatus => parseArguments_not_ok h hstatus⟩

/-- `bkk_uds_server -f 15 -s45`. -/
def sampleArgv : List Bytes :=
  [bytesOf "bkk_uds_server", bytesOf "-f", bytesOf "15", bytesOf "-s45"]

theorem optionsOf_sample : optionsOf .requireOrder sampleArgv =
    [{ opt := optFreshness, optarg := some (bytesOf "15") },
      { opt := optStaleness, optarg := some (bytesOf "45") }] := by
  have hfirst : getopt optstring (Scan.start .requireOrder sampleArgv) =
      some ({ opt := optFreshness, optarg := some (bytesOf "15") },
        { order := .requireOrder, nextchar := [], args := [bytesOf "-s45"] }) := by
    decide
  have hsecond : getopt optstring
      { order := .requireOrder, nextchar := [], args := [bytesOf "-s45"] } =
      some ({ opt := optStaleness, optarg := some (bytesOf "45") },
        { order := .requireOrder, nextchar := [], args := [] }) := by decide
  unfold optionsOf
  rw [returns_of_call hfirst, returns_of_call hsecond, returns_of_end rfl]

/-- The sample gives both windows, and the default size. -/
theorem parseArguments_sound_sample : SoundFor .requireOrder sampleArgv
    { freshnessSeconds := 15, stalenessSeconds := 45, maxCacheSize := 100 } := by
  apply (parseArguments_sound .requireOrder sampleArgv ArgConfig.defaults).1
  have hcalls := optionsOf_sample
  unfold optionsOf at hcalls
  unfold parseArguments
  rw [loop_eq_foldlM, hcalls]
  decide

/-- The cache is built from a sound configuration. -/
def ArgConfig.toCacheConfig (config : ArgConfig) : CacheConfig where
  freshnessSeconds := config.freshnessSeconds
  stalenessSeconds := config.stalenessSeconds
  maxCacheSize := config.maxCacheSize

theorem exists_soundConfig {order : ArgOrder} {argv : List Bytes}
    {before config : ArgConfig}
    (h : parseArguments order argv before = (.ok, config)) :
    ∃ sound : SoundConfig, sound.toCacheConfig = config.toCacheConfig := by
  have hsound := parseArguments_ok h
  exact
    ⟨{ config.toCacheConfig with
        freshness_pos := hsound.freshness_pos
        freshness_le_staleness := hsound.freshness_le_staleness
        staleness_le := hsound.staleness_le }, rfl⟩

end BkkApi.Server.ArgParser
