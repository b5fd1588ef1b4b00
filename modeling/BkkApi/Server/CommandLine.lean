import BkkApi.Server.ArgParser

/-!
# The documented command line

`print_usage` of `main.cpp` and the server's README document four options: a key
file, and three numbers with their defaults.  `CliOption` is such an option as it
stands on a command line, in one word or in two, and `commandLine` the words of a
whole line.

The option string of `parse_arguments` has only the numbers.  A line of them is
read as its last values (`fold_commandLine`), and a line with a key file is an
error, whatever stands before it (`fold_commandLine_of_key`).
`parseArguments_documented_iff` puts the two together.
-/

namespace BkkApi.Server.CommandLine

open BkkApi.Verified.CData
open BkkApi.Verified.Getopt
open BkkApi.Server.ArgParser

/-! ## What is documented -/

/-- The text that `print_usage` writes. -/
def usage : Bytes := bytesOf ("Usage: %s [-k api_key_file] " ++
  "[-f freshness_seconds] [-s staleness_seconds] [-l max_cache_size]\n")

/-- The options that stand in brackets in such a text. -/
def optionsIn : Bytes → List UInt8
  | 91 :: 45 :: c :: rest => c :: optionsIn rest
  | _ :: rest => optionsIn rest
  | [] => []

/-- The documented options with a number. -/
inductive NumberFlag
  | freshness
  | staleness
  | maxCacheSize
  deriving DecidableEq

/-- The option characters. -/
def NumberFlag.char : NumberFlag → UInt8
  | .freshness => optFreshness
  | .staleness => optStaleness
  | .maxCacheSize => optMaxCacheSize

/-- The default values of the README. -/
def NumberFlag.default : NumberFlag → Int
  | .freshness => 10
  | .staleness => 20
  | .maxCacheSize => 100

/-- The option character of the key file. -/
def optKey : UInt8 := 107

/-- A documented option, with its argument in the next word or attached: a path, or
a positive number that an `int` holds. -/
inductive CliOption
  | key (path : Bytes) (attached : Bool) (full : attached = true → path ≠ [])
  | number (flag : NumberFlag) (text : Bytes) (value : Int) (attached : Bool)
      (positive : PositiveInt text value)

/-- These are the options of the usage text. -/
theorem mem_optionsIn_usage {c : UInt8} :
    c ∈ optionsIn usage ↔ c = optKey ∨ ∃ flag : NumberFlag, c = flag.char := by
  have hoptions : optionsIn usage =
      [optKey, optFreshness, optStaleness, optMaxCacheSize] := by decide +kernel
  rw [hoptions]
  constructor
  · intro h
    simp only [List.mem_cons, List.not_mem_nil, or_false] at h
    rcases h with h | h | h | h
    · exact Or.inl h
    · exact Or.inr ⟨.freshness, h⟩
    · exact Or.inr ⟨.staleness, h⟩
    · exact Or.inr ⟨.maxCacheSize, h⟩
  · intro h
    rcases h with h | ⟨flag, h⟩
    · simp [h]
    · cases flag <;> simp [h, NumberFlag.char]

/-- The words of an option. -/
def CliOption.words : CliOption → List Bytes
  | .key path attached _ => optionWords optKey path attached
  | .number flag text _ attached _ => optionWords flag.char text attached

/-- The words of a command line. -/
def commandLine (line : List CliOption) : List Bytes := line.flatMap CliOption.words

/-- The option names a key file. -/
def CliOption.isKey : CliOption → Bool
  | .key .. => true
  | .number .. => false

/-- The value that an option gives to `flag`. -/
def CliOption.valueOf (flag : NumberFlag) : CliOption → Option Int
  | .key .. => none
  | .number flag' _ value _ _ => if flag' = flag then some value else none

/-- The value of the last occurrence of an option, or else the default. -/
def effective (line : List CliOption) (flag : NumberFlag) (default : Int) : Int :=
  ((line.filterMap (CliOption.valueOf flag)).getLast?).getD default

/-- What the options of a line make of the variables. -/
def finalValues (line : List CliOption) (vars : ArgConfig) : ArgConfig where
  freshnessSeconds := effective line .freshness vars.freshnessSeconds
  stalenessSeconds := effective line .staleness vars.stalenessSeconds
  maxCacheSize := effective line .maxCacheSize vars.maxCacheSize

/-- The first option of a line gives the default to the others. -/
theorem effective_cons (option : CliOption) (rest : List CliOption)
    (flag : NumberFlag) (default : Int) :
    effective (option :: rest) flag default =
      effective rest flag ((option.valueOf flag).getD default) := by
  unfold effective
  cases hvalue : option.valueOf flag with
  | none => rw [List.filterMap_cons_none hvalue, Option.getD_none]
  | some value =>
      rw [List.filterMap_cons_some hvalue, List.getLast?_cons, Option.getD_some,
        Option.getD_some]

theorem finalValues_cons (option : CliOption) (rest : List CliOption)
    (vars : ArgConfig) :
    finalValues (option :: rest) vars =
      finalValues rest (finalValues [option] vars) := by
  unfold finalValues
  simp only [effective_cons option rest, effective_cons option []]
  rfl

/-! ## What the parser makes of it -/

/-- The option string has the numbers. -/
theorem takesArgument_char (flag : NumberFlag) :
    takesArgument optstring flag.char = some true := by
  cases flag <;> decide

/-- It does not have the key file. -/
theorem takesArgument_optKey : takesArgument optstring optKey = none := by decide

/-- The body of the loop takes a documented number. -/
theorem parseOption_number (vars : ArgConfig) {flag : NumberFlag} {text : Bytes}
    {value : Int} (attached : Bool) (positive : PositiveInt text value) :
    parseOption vars { opt := flag.char, optarg := some text } =
      .ok (finalValues [.number flag text value attached positive] vars) := by
  have hvalue : parsePositiveInt (some text) = some value :=
    parsePositiveInt_eq_some_iff.2 ⟨text, rfl, positive⟩
  have hread : ∀ set, readInto (some text) set = .ok (set value) := by
    intro set
    unfold readInto
    rw [hvalue]
  cases flag
  · exact hread fun value => { vars with freshnessSeconds := value }
  · exact hread fun value => { vars with stalenessSeconds := value }
  · exact hread fun value => { vars with maxCacheSize := value }

/-- The calls on a line that starts with a documented number. -/
theorem returns_number {flag : NumberFlag} {text : Bytes} {value : Int}
    {attached : Bool} (positive : PositiveInt text value) (order : ArgOrder)
    (rest : List CliOption) :
    returns optstring
        { order := order
          nextchar := []
          args := commandLine (.number flag text value attached positive :: rest) } =
      { opt := flag.char, optarg := some text } ::
        returns optstring
          { order := order, nextchar := [], args := commandLine rest } := by
  apply returns_of_call
  apply getopt_optionWords
  · cases flag <;> decide
  · exact takesArgument_char flag
  · exact fun _ => positive.ne_nil

/-- The first call on a line that starts with a key file returns `?`. -/
theorem exists_returns_key (path : Bytes) (attached : Bool)
    (full : attached = true → path ≠ []) (order : ArgOrder)
    (rest : List CliOption) :
    ∃ later, returns optstring
        { order := order
          nextchar := []
          args := commandLine (.key path attached full :: rest) } =
      { opt := 63, optarg := none } :: later := by
  obtain ⟨next, hcall⟩ := getopt_unknown (show optKey ≠ 45 by decide)
    takesArgument_optKey order (commandLine rest)
  exact ⟨_, returns_of_call hcall⟩

/-- A line of numbers leaves its last values. -/
theorem fold_commandLine {line : List CliOption}
    (hkey : ∀ option ∈ line, option.isKey = false) (order : ArgOrder)
    (vars : ArgConfig) :
    (returns optstring
        { order := order, nextchar := [], args := commandLine line }).foldlM
      parseOption vars = .ok (finalValues line vars) := by
  induction line generalizing vars with
  | nil =>
      have hend : getopt optstring
          { order := order, nextchar := [], args := commandLine [] } = none := by
        cases order <;> rfl
      rw [returns_of_end hend]
      rfl
  | cons option rest ih =>
      cases option with
      | key path attached full =>
          have hfalse := hkey _ List.mem_cons_self
          cases hfalse
      | number flag text value attached positive =>
          have hrest : ∀ option ∈ rest, option.isKey = false :=
            fun option hmem => hkey option (List.mem_cons_of_mem _ hmem)
          rw [returns_number positive order, finalValues_cons, List.foldlM_cons,
            parseOption_number vars attached positive]
          exact ih hrest _

/-- A line with a key file is an error: the numbers before it are taken, and then
the option is not known. -/
theorem fold_commandLine_of_key {line : List CliOption}
    (hkey : ∃ option ∈ line, option.isKey = true) (order : ArgOrder)
    (vars : ArgConfig) :
    (returns optstring
        { order := order, nextchar := [], args := commandLine line }).foldlM
      parseOption vars = .error .error := by
  induction line generalizing vars with
  | nil =>
      obtain ⟨option, hmem, -⟩ := hkey
      cases hmem
  | cons option rest ih =>
      cases option with
      | key path attached full =>
          obtain ⟨later, hcalls⟩ := exists_returns_key path attached full order rest
          rw [hcalls]
          rfl
      | number flag text value attached positive =>
          have hrest : ∃ option ∈ rest, option.isKey = true := by
            obtain ⟨option, hmem, htrue⟩ := hkey
            rcases List.mem_cons.1 hmem with heq | hlater
            · rw [heq] at htrue
              cases htrue
            · exact ⟨option, hlater, htrue⟩
          rw [returns_number positive order, List.foldlM_cons,
            parseOption_number vars attached positive]
          exact ih hrest _

/-! ## The whole command line -/

/-- The effective windows of a line are in order. -/
def InOrder (line : List CliOption) : Prop :=
  effective line .freshness NumberFlag.freshness.default ≤
    effective line .staleness NumberFlag.staleness.default

instance (line : List CliOption) : Decidable (InOrder line) :=
  inferInstanceAs (Decidable (_ ≤ _))

/-- The scan passes over the name of the program. -/
theorem start_commandLine (order : ArgOrder) (program : Bytes)
    (line : List CliOption) :
    Scan.start order (program :: commandLine line) =
      { order := order, nextchar := [], args := commandLine line } := rfl

/-- A line of numbers in order is accepted, with the effective values. -/
theorem parseArguments_numbers (order : ArgOrder) (program : Bytes)
    {line : List CliOption} (before : ArgConfig)
    (hkey : ∀ option ∈ line, option.isKey = false) (horder : InOrder line) :
    parseArguments order (program :: commandLine line) before =
      (.ok, finalValues line ArgConfig.defaults) := by
  have hle : ¬(finalValues line ArgConfig.defaults).stalenessSeconds <
      (finalValues line ArgConfig.defaults).freshnessSeconds :=
    Int.not_lt.2 horder
  have hfold := fold_commandLine hkey order ArgConfig.defaults
  unfold parseArguments
  rw [loop_eq_foldlM, start_commandLine, hfold]
  exact if_neg hle

/-- A line with a key file is refused. -/
theorem parseArguments_key (order : ArgOrder) (program : Bytes)
    {line : List CliOption} (before : ArgConfig)
    (hkey : ∃ option ∈ line, option.isKey = true) :
    parseArguments order (program :: commandLine line) before =
      (.error, before) := by
  have hfold := fold_commandLine_of_key hkey order ArgConfig.defaults
  unfold parseArguments
  rw [loop_eq_foldlM, start_commandLine, hfold]

/-- A documented command line with its windows in order is accepted exactly if it
names no key file. -/
theorem parseArguments_documented_iff (order : ArgOrder) (program : Bytes)
    (line : List CliOption) (before : ArgConfig) (horder : InOrder line) :
    (parseArguments order (program :: commandLine line) before).1 = .ok ↔
      ∀ option ∈ line, option.isKey = false := by
  constructor
  · intro hok option hmem
    apply Bool.eq_false_iff.2
    intro hkey
    rw [parseArguments_key order program before ⟨option, hmem, hkey⟩] at hok
    cases hok
  · intro hkey
    rw [parseArguments_numbers order program before hkey horder]

/-- `-f 15 -s 45 -l 500`. -/
def readmeNumbers : List CliOption :=
  [.number .freshness (bytesOf "15") 15 false (positiveInt_of_parse (by decide)),
    .number .staleness (bytesOf "45") 45 false (positiveInt_of_parse (by decide)),
    .number .maxCacheSize (bytesOf "500") 500 false
      (positiveInt_of_parse (by decide))]

theorem parseArguments_documented_iff_readmeNumbers :
    (parseArguments .permute
        (bytesOf "bkk_uds_server" :: commandLine readmeNumbers)
        ArgConfig.defaults).1 = .ok ↔
      ∀ option ∈ readmeNumbers, option.isKey = false :=
  parseArguments_documented_iff _ _ _ _ (by decide)

/-- The example of the README: `-k /path/to/api_key.txt -f 15 -s 45 -l 500`. -/
def readmeExample : List CliOption :=
  .key (bytesOf "/path/to/api_key.txt") false (by decide) :: readmeNumbers

/-- The README's own example is refused. -/
theorem parseArguments_readmeExample :
    commandLine readmeExample =
        [bytesOf "-k", bytesOf "/path/to/api_key.txt", bytesOf "-f", bytesOf "15",
          bytesOf "-s", bytesOf "45", bytesOf "-l", bytesOf "500"] ∧
      InOrder readmeExample ∧
      (parseArguments .permute
        (bytesOf "bkk_uds_server" :: commandLine readmeExample)
        ArgConfig.defaults).1 ≠ .ok := by
  have hkey : ∃ option ∈ readmeExample, option.isKey = true :=
    ⟨_, List.mem_cons_self, rfl⟩
  refine ⟨by decide, by decide, ?_⟩
  rw [parseArguments_key _ _ _ hkey]
  decide

end BkkApi.Server.CommandLine
