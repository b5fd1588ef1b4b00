import BkkApi.Verified.CData

/-!
# Scanning options with `getopt`

`getopt`, one call at a time.  A call goes on inside an argument that groups
several options, or takes the next one.  An option that the option string does not
have, or that lacks its argument, is returned as `?`.  The scan ends behind the
last argument or at `--`; whether it ends at an operand too depends on the library
(`ArgOrder`).

`returns` is what the calls return until the end, and `loop` is the customary
loop around them, which the first failure leaves.  `loop_eq_foldlM` is the rule
for such loops: they fold over the returns.  `lastReturn` picks the return that
overrides the others of its option.
-/

namespace BkkApi.Verified.Getopt

open BkkApi.Verified.CData

/-! ## One call -/

/-- What a call returns, with the `optarg` it leaves. -/
structure Return where
  opt : UInt8
  optarg : Option Bytes
  deriving DecidableEq

/-- What an operand does to a scan. -/
inductive ArgOrder
  /-- It ends the scan, as POSIX has it. -/
  | requireOrder
  /-- It is moved behind all options: the GNU library without `POSIXLY_CORRECT` in
  the environment. -/
  | permute
  deriving DecidableEq

/-- Where a scan stands: the rest of the argument it is in, and the arguments
after that, less the operands that have been moved behind them. -/
structure Scan where
  order : ArgOrder
  nextchar : Bytes
  args : List Bytes
  deriving DecidableEq

/-- The scan at the first call: `optind` is 1, so `argv[0]` is passed over. -/
def Scan.start (order : ArgOrder) (argv : List Bytes) : Scan where
  order := order
  nextchar := []
  args := argv.tail

/-- An argument that is no option: it does not start with a dash, or is one. -/
def isOperand : Bytes → Bool
  | 45 :: _ :: _ => false
  | _ => true

/-- The arguments from the one on that the next call takes. -/
def Scan.upcoming (scan : Scan) : List Bytes :=
  match scan.order with
  | .requireOrder => scan.args
  | .permute => scan.args.dropWhile isOperand

/-- Whether the option string has an option, and whether that takes an
argument. -/
def takesArgument (optstring : Bytes) (c : UInt8) : Option Bool :=
  if c = 58 then none
  else
    match optstring.dropWhile (· != c) with
    | [] => none
    | _ :: rest => some (rest.head? == some 58)

/-- The option `c`, with the scan behind it. -/
def option (optstring : Bytes) (c : UInt8) (scan : Scan) : Return × Scan :=
  match takesArgument optstring c with
  | none => ({ opt := 63, optarg := none }, scan)
  | some false => ({ opt := c, optarg := none }, scan)
  | some true =>
      if scan.nextchar ≠ [] then
        ({ opt := c, optarg := some scan.nextchar }, { scan with nextchar := [] })
      else
        match scan.args with
        | [] => ({ opt := 63, optarg := none }, scan)
        | value :: later =>
            ({ opt := c, optarg := some value }, { scan with args := later })

/-- `getopt`; `none` is its `-1`. -/
def getopt (optstring : Bytes) (scan : Scan) : Option (Return × Scan) :=
  match scan.nextchar with
  | c :: rest => some (option optstring c { scan with nextchar := rest })
  | [] =>
      match scan.upcoming with
      | (dash :: c :: rest) :: later =>
          if dash = 45 ∧ ¬(c = 45 ∧ rest = []) then
            some (option optstring c
              { scan with nextchar := rest, args := later })
          else none
      | _ => none

/-- The words of the option `c` with an argument: one word behind the other, or
both in one. -/
def optionWords (c : UInt8) (value : Bytes) (attached : Bool) : List Bytes :=
  if attached then [45 :: c :: value] else [[45, c], value]

/-- Nothing is passed over where an option comes next. -/
theorem upcoming_of_option (order : ArgOrder) (nextchar : Bytes) (c : UInt8)
    (rest : Bytes) (later : List Bytes) :
    Scan.upcoming
        { order := order, nextchar := nextchar, args := (45 :: c :: rest) :: later } =
      (45 :: c :: rest) :: later := by
  cases order with
  | requireOrder => rfl
  | permute => rfl

/-- A call at these words returns the option with its argument, and goes to what
comes behind them. -/
theorem getopt_optionWords {optstring value : Bytes} {c : UInt8} {attached : Bool}
    (hdash : c ≠ 45) (htakes : takesArgument optstring c = some true)
    (hvalue : attached = true → value ≠ []) (order : ArgOrder)
    (later : List Bytes) :
    getopt optstring
        { order := order
          nextchar := []
          args := optionWords c value attached ++ later } =
      some ({ opt := c, optarg := some value },
        { order := order, nextchar := [], args := later }) := by
  cases attached with
  | true =>
      have hfull := hvalue rfl
      simp [getopt, optionWords, upcoming_of_option, option, htakes, hdash, hfull]
  | false =>
      simp [getopt, optionWords, upcoming_of_option, option, htakes, hdash]

/-- An option that the option string does not have is returned as `?`. -/
theorem getopt_unknown {optstring value : Bytes} {c : UInt8} {attached : Bool}
    (hdash : c ≠ 45) (htakes : takesArgument optstring c = none)
    (order : ArgOrder) (later : List Bytes) :
    ∃ next, getopt optstring
        { order := order
          nextchar := []
          args := optionWords c value attached ++ later } =
      some ({ opt := 63, optarg := none }, next) := by
  cases attached with
  | true => simp [getopt, optionWords, upcoming_of_option, option, htakes, hdash]
  | false => simp [getopt, optionWords, upcoming_of_option, option, htakes, hdash]

/-! ## All calls -/

/-- The bytes in a list of arguments, and one for each. -/
def argsSize (args : List Bytes) : Nat := (args.map fun arg => arg.length + 1).sum

/-- The bytes still to be scanned, and one for each argument. -/
def Scan.size (scan : Scan) : Nat := scan.nextchar.length + argsSize scan.args

@[simp] theorem argsSize_cons (arg : Bytes) (rest : List Bytes) :
    argsSize (arg :: rest) = arg.length + 1 + argsSize rest := by
  unfold argsSize
  rw [List.map_cons, List.sum_cons]

theorem argsSize_dropWhile_le (passed : Bytes → Bool) (args : List Bytes) :
    argsSize (args.dropWhile passed) ≤ argsSize args := by
  induction args with
  | nil => exact Nat.le_refl _
  | cons arg rest ih =>
      rw [List.dropWhile_cons]
      split
      · rw [argsSize_cons]
        omega
      · exact Nat.le_refl _

theorem argsSize_upcoming_le (scan : Scan) :
    argsSize scan.upcoming ≤ argsSize scan.args := by
  unfold Scan.upcoming
  split
  · exact Nat.le_refl _
  · exact argsSize_dropWhile_le isOperand scan.args

/-- A call moves on. -/
theorem option_size_le (optstring : Bytes) (c : UInt8) (scan : Scan) :
    (option optstring c scan).2.size ≤ scan.size := by
  unfold option
  split
  · exact Nat.le_refl _
  · exact Nat.le_refl _
  · split
    · unfold Scan.size
      simp
    · split
      · exact Nat.le_refl _
      · rename_i hargs
        unfold Scan.size
        rw [hargs, argsSize_cons]
        dsimp only
        omega

theorem getopt_size_lt {optstring : Bytes} {scan next : Scan} {ret : Return}
    (h : getopt optstring scan = some (ret, next)) : next.size < scan.size := by
  unfold getopt at h
  split at h
  · rename_i c rest hnextchar
    have hle := option_size_le optstring c { scan with nextchar := rest }
    rw [Option.some.inj h] at hle
    unfold Scan.size at hle ⊢
    rw [hnextchar, List.length_cons]
    dsimp only at hle
    omega
  · split at h
    · rename_i dash c rest later hupcoming
      split at h
      · have hle := option_size_le optstring c
          { scan with nextchar := rest, args := later }
        have hpassed := argsSize_upcoming_le scan
        rw [Option.some.inj h] at hle
        rw [hupcoming, argsSize_cons] at hpassed
        unfold Scan.size at hle ⊢
        simp only [List.length_cons] at hle hpassed
        omega
      · cases h
    · cases h

/-- What the calls return until the end. -/
def returns (optstring : Bytes) (scan : Scan) : List Return :=
  match h : getopt optstring scan with
  | none => []
  | some (ret, next) =>
      have := getopt_size_lt h
      ret :: returns optstring next
termination_by scan.size

/-- `while((opt = getopt(..)) != -1)`, with a body that may leave the loop. -/
def loop {σ ε : Type} (optstring : Bytes) (body : σ → Return → Except ε σ)
    (state : σ) (scan : Scan) : Except ε σ :=
  match h : getopt optstring scan with
  | none => .ok state
  | some (ret, next) =>
      have := getopt_size_lt h
      match body state ret with
      | .error failure => .error failure
      | .ok state' => loop optstring body state' next
termination_by scan.size

theorem returns_of_end {optstring : Bytes} {scan : Scan}
    (h : getopt optstring scan = none) : returns optstring scan = [] := by
  rw [returns]
  split
  · rfl
  · rename_i hcall
    rw [h] at hcall
    cases hcall

theorem returns_of_call {optstring : Bytes} {scan next : Scan} {ret : Return}
    (h : getopt optstring scan = some (ret, next)) :
    returns optstring scan = ret :: returns optstring next := by
  rw [returns]
  split
  · rename_i hend
    rw [h] at hend
    cases hend
  · rename_i ret' next' hcall
    rw [h] at hcall
    obtain ⟨hret, hnext⟩ := Prod.mk.inj (Option.some.inj hcall)
    rw [hret, hnext]

/-- The loop folds its body over the returns. -/
theorem loop_eq_foldlM {σ ε : Type} (optstring : Bytes)
    (body : σ → Return → Except ε σ) (state : σ) (scan : Scan) :
    loop optstring body state scan =
      (returns optstring scan).foldlM body state := by
  fun_induction loop optstring body state scan with
  | case1 state scan hend =>
      rw [returns_of_end hend]
      rfl
  | case2 state scan ret next hcall _ failure hbody =>
      rw [returns_of_call hcall, List.foldlM_cons, hbody]
      rfl
  | case3 state scan ret next hcall _ state' hbody ih =>
      rw [returns_of_call hcall, List.foldlM_cons, hbody]
      exact ih

/-! ## Folds over the returns -/

/-- A fold that ends well has gone through its first element and then the
rest. -/
theorem foldlM_cons_ok {σ ε : Type} {body : σ → Return → Except ε σ}
    {state final : σ} {ret : Return} {rest : List Return}
    (h : (ret :: rest).foldlM body state = .ok final) :
    ∃ state', body state ret = .ok state' ∧ rest.foldlM body state' = .ok final := by
  rw [List.foldlM_cons] at h
  cases hbody : body state ret with
  | error failure =>
      rw [hbody] at h
      cases h
  | ok state' =>
      rw [hbody] at h
      exact ⟨state', rfl, h⟩

/-- A fold that fails does so at one of its elements. -/
theorem exists_of_foldlM_error {σ ε : Type} {body : σ → Return → Except ε σ}
    {state : σ} {failure : ε} {rets : List Return}
    (h : rets.foldlM body state = .error failure) :
    ∃ state' ret, ret ∈ rets ∧ body state' ret = .error failure := by
  induction rets generalizing state with
  | nil => cases h
  | cons ret rest ih =>
      rw [List.foldlM_cons] at h
      cases hbody : body state ret with
      | error first =>
          rw [hbody] at h
          have hsame : first = failure := Except.error.inj h
          rw [hsame] at hbody
          exact ⟨state, ret, List.mem_cons_self, hbody⟩
      | ok next =>
          rw [hbody] at h
          obtain ⟨state', ret', hmem, hfails⟩ := ih h
          exact ⟨state', ret', List.mem_cons_of_mem _ hmem, hfails⟩

/-- The last return of the option `c`. -/
def lastReturn (rets : List Return) (c : UInt8) : Option Return :=
  rets.reverse.find? fun ret => ret.opt == c

theorem lastReturn_cons (ret : Return) (rest : List Return) (c : UInt8) :
    lastReturn (ret :: rest) c =
      (lastReturn rest c).or (if ret.opt = c then some ret else none) := by
  unfold lastReturn
  rw [List.reverse_cons, List.find?_append]
  by_cases hc : ret.opt = c
  · simp [hc]
  · simp [hc]

end BkkApi.Verified.Getopt
