import BkkApi.Server.ArgParser
import BkkApi.System.Exchange

/-!
# From the command line to the clients

`main` of `main.cpp` up to its loop, with `init_server`.  Any number of instances
of the server may be started, side by side or one after the other, and each may be
killed at any time.  What they share is the name of the socket in the file system,
which nobody removes at the end: `init_server` removes whatever it finds there.

* `connects_exact` says which instance a client's `connect` comes to, and what
  cuts an instance off or keeps it from starting.
* `options_reach_clients` follows the options of the instance that serves to the
  answers that clients get from it.
-/

namespace BkkApi.System.Startup

open BkkApi.Verified.CData
open BkkApi.Verified.Getopt (ArgOrder)
open BkkApi.Verified.Run
open BkkApi.Server.Protocol
open BkkApi.Server.ResponseParser
open BkkApi.Server.Cache
open BkkApi.Server.ArgParser
open BkkApi.Server.Workers (ThreadPool)
open BkkApi.Client.UdsClient
open BkkApi.System.Exchange

/-! ## The main thread -/

/-- Where the main thread of an instance is. -/
inductive Pc
  | entered
  /-- Before `curl_global_init`. -/
  | parsed (config : ArgConfig)
  /-- The pool has been started, and `init_server` entered. -/
  | starting (config : ArgConfig)
  /-- Has called `unlink`. -/
  | unlinked (config : ArgConfig)
  /-- Has a socket. -/
  | created (config : ArgConfig)
  | bound (config : ArgConfig)
  | listening (config : ArgConfig)
  /-- Has an epoll instance. -/
  | polling (config : ArgConfig)
  /-- In the loop around `epoll_wait`. -/
  | serving (config : ArgConfig)
  | exited (code : Int)
  | killed
  deriving DecidableEq

/-- What happens to the name of the socket. -/
inductive Event
  /-- There is no such name after the insts `unlink`. -/
  | cleared (k : Nat)
  /-- The name is that of the insts socket. -/
  | bound (k : Nat)
  deriving DecidableEq

/-- A call that may fail, after which `main` returns 1. -/
def orExit (succeeds : Bool) (path : Option Nat) (pc : Pc) :
    Pc × Option Nat × List Event :=
  (if succeeds then pc else .exited 1, path, [])

/-- The next step of the main thread of instance `k`: where it goes on, what the
name then refers to, and what has happened to it. -/
def mainNext (path : Option Nat) (k : Nat) (order : ArgOrder)
    (argv : List Bytes) (succeeds : Bool) :
    Pc → Option (Pc × Option Nat × List Event)
  | .entered =>
      match parseArguments order argv ⟨0, 0, 0⟩ with
      | (.ok, config) => some (.parsed config, path, [])
      | (.help, _) => some (.exited 0, path, [])
      | (.error, _) => some (.exited 1, path, [])
  | .parsed config => some (orExit succeeds path (.starting config))
  | .starting config =>
      -- nobody looks at what `unlink` returns
      let path' := if succeeds then none else path
      some (.unlinked config, path',
        if path' = none then [.cleared k] else [])
  | .unlinked config => some (orExit succeeds path (.created config))
  | .created config =>
      if succeeds ∧ path = none then
        some (.bound config, some k, [.bound k])
      else some (.exited 1, path, [])
  | .bound config => some (orExit succeeds path (.listening config))
  | .listening config => some (orExit succeeds path (.polling config))
  | .polling config => some (orExit succeeds path (.serving config))
  | .serving _ => if succeeds then none else some (.exited 1, path, [])
  | .exited _ | .killed => none

/-! ## All instances -/

/-- One run of the program: its arguments, and what its `getopt` does with
operands. -/
structure Instance where
  order : ArgOrder
  argv : List Bytes
  pc : Pc

/-- The instances so far, and the name of the socket. -/
structure Host where
  instances : List Instance
  /-- Whose socket `BKK_UDS_SOCKET_PATH` names. -/
  socketPath : Option Nat
  /-- What has happened to the name. -/
  log : List Event

inductive Action
  | start (order : ArgOrder) (argv : List Bytes)
  | advance (k : Nat) (succeeds : Bool)
  | kill (k : Nat)

/-- The instance has not ended. -/
def Pc.isRunning : Pc → Bool
  | .exited _ | .killed => false
  | _ => true

/-- One step. -/
def step (s : Host) : Action → Option Host
  | .start order argv =>
      some { s with
        instances := s.instances ++
          [{ order := order, argv := argv, pc := .entered }] }
  | .advance k succeeds =>
      (s.instances[k]?).bind fun inst =>
        (mainNext s.socketPath k inst.order inst.argv succeeds inst.pc).map
          fun (pc, path, events) =>
            { instances := s.instances.set k { inst with pc := pc }
              socketPath := path
              log := s.log ++ events }
  | .kill k =>
      (s.instances[k]?).bind fun inst =>
        if inst.pc.isRunning then
          some { s with instances := s.instances.set k { inst with pc := .killed } }
        else none

/-- A file system without the name, and no instance yet. -/
def machine : Machine Host Action where
  init s := s.instances = [] ∧ s.socketPath = none ∧ s.log = []
  step := step

/-- The instance has called `listen` and has not ended. -/
def Pc.isListening : Pc → Bool
  | .listening _ | .polling _ | .serving _ => true
  | _ => false

/-- The instance that a `connect` comes to. -/
def connects (s : Host) : Option Nat :=
  s.socketPath.bind fun k =>
    (s.instances[k]?).bind fun inst =>
      if inst.pc.isListening then some k else none

/-! ## What one step does -/

/-- A step that leaves the name alone. -/
inductive Goes (order : ArgOrder) (argv : List Bytes) : Pc → Pc → Prop
  | parses {config : ArgConfig}
      (hparse : parseArguments order argv ⟨0, 0, 0⟩ = (.ok, config)) :
      Goes order argv .entered (.parsed config)
  | starts {config : ArgConfig} :
      Goes order argv (.parsed config) (.starting config)
  | leaves {config : ArgConfig} :
      Goes order argv (.starting config) (.unlinked config)
  | creates {config : ArgConfig} :
      Goes order argv (.unlinked config) (.created config)
  | listens {config : ArgConfig} :
      Goes order argv (.bound config) (.listening config)
  | polls {config : ArgConfig} :
      Goes order argv (.listening config) (.polling config)
  | serves {config : ArgConfig} :
      Goes order argv (.polling config) (.serving config)
  | exits {pc : Pc} (code : Int) : Goes order argv pc (.exited code)
  | dies {pc : Pc} : Goes order argv pc .killed

/-- What a step of instance `k` can be. -/
inductive Moves (path : Option Nat) (k : Nat) (order : ArgOrder)
    (argv : List Bytes) : Pc → Pc → Option Nat → List Event → Prop
  | clears {config : ArgConfig} :
      Moves path k order argv (.starting config) (.unlinked config) none
        [.cleared k]
  | binds {config : ArgConfig} (hfree : path = none) :
      Moves path k order argv (.created config) (.bound config) (some k)
        [.bound k]
  | goes {pc pc' : Pc} (hgoes : Goes order argv pc pc') :
      Moves path k order argv pc pc' path []

theorem moves_orExit {path : Option Nat} {k : Nat} {order : ArgOrder}
    {argv : List Bytes} {pc pc' : Pc} (hgoes : Goes order argv pc pc')
    (succeeds : Bool) :
    Moves path k order argv pc (orExit succeeds path pc').1
      (orExit succeeds path pc').2.1 (orExit succeeds path pc').2.2 := by
  cases succeeds with
  | true => exact .goes hgoes
  | false => exact .goes (.exits 1)

theorem moves_of_mainNext {path path' : Option Nat} {k : Nat} {order : ArgOrder}
    {argv : List Bytes} {succeeds : Bool} {pc pc' : Pc} {events : List Event}
    (h : mainNext path k order argv succeeds pc = some (pc', path', events)) :
    Moves path k order argv pc pc' path' events := by
  cases pc with
  | entered =>
      simp only [mainNext] at h
      cases hparse : parseArguments order argv ⟨0, 0, 0⟩ with
      | mk status config =>
          rw [hparse] at h
          cases status with
          | ok =>
              cases h
              exact .goes (.parses hparse)
          | help =>
              cases h
              exact .goes (.exits 0)
          | error =>
              cases h
              exact .goes (.exits 1)
  | parsed config =>
      cases h
      exact moves_orExit .starts succeeds
  | starting config =>
      simp only [mainNext] at h
      cases succeeds with
      | true =>
          cases h
          exact .clears
      | false =>
          cases path with
          | none =>
              cases h
              exact .clears
          | some j =>
              cases h
              exact .goes .leaves
  | unlinked config =>
      cases h
      exact moves_orExit .creates succeeds
  | created config =>
      simp only [mainNext] at h
      by_cases hfree : succeeds = true ∧ path = none
      · rw [if_pos hfree] at h
        cases h
        exact .binds hfree.2
      · rw [if_neg hfree] at h
        cases h
        exact .goes (.exits 1)
  | bound config =>
      cases h
      exact moves_orExit .listens succeeds
  | listening config =>
      cases h
      exact moves_orExit .polls succeeds
  | polling config =>
      cases h
      exact moves_orExit .serves succeeds
  | serving config =>
      cases succeeds with
      | true => cases h
      | false =>
          cases h
          exact .goes (.exits 1)
  | exited code | killed => cases h

/-- What one step can be. -/
inductive Step (s : Host) : Host → Prop
  | start (order : ArgOrder) (argv : List Bytes) :
      Step s { s with
        instances := s.instances ++
          [{ order := order, argv := argv, pc := .entered }] }
  | moves {k : Nat} {inst : Instance} {pc : Pc} {path : Option Nat}
      {events : List Event} (hinst : s.instances[k]? = some inst)
      (hmoves : Moves s.socketPath k inst.order inst.argv inst.pc pc path events) :
      Step s
        { instances := s.instances.set k { inst with pc := pc }
          socketPath := path
          log := s.log ++ events }

theorem step_cases {s t : Host} {a : Action} (h : step s a = some t) :
    Step s t := by
  cases a with
  | start order argv =>
      cases h
      exact .start order argv
  | advance k succeeds =>
      obtain ⟨inst, hinst, hrest⟩ := Option.bind_eq_some_iff.1 h
      obtain ⟨⟨pc, path, events⟩, hnext, rfl⟩ := Option.map_eq_some_iff.1 hrest
      exact .moves hinst (moves_of_mainNext hnext)
  | kill k =>
      obtain ⟨inst, hinst, hrest⟩ := Option.bind_eq_some_iff.1 h
      rw [Option.ite_none_right_eq_some] at hrest
      have hmoves : Step s _ := .moves hinst (.goes .dies)
      rw [List.append_nil] at hmoves
      rw [← Option.some.inj hrest.2]
      exact hmoves

/-! ## Who has the name -/

/-- Has not come to `bind` yet. -/
def Pc.isBefore : Pc → Bool
  | .entered | .parsed _ | .starting _ | .unlinked _ | .created _ => true
  | _ => false

/-- Has bound its socket and not ended. -/
def Pc.isBound : Pc → Bool
  | .bound _ => true
  | pc => pc.isListening

theorem Goes.isBefore {order : ArgOrder} {argv : List Bytes} {pc pc' : Pc}
    (h : Goes order argv pc pc') (hbefore : pc'.isBefore = true) : pc.isBefore = true := by
  cases h with
  | parses | starts | leaves | creates => rfl
  | listens | polls | serves | exits | dies => cases hbefore

theorem Goes.isBound {order : ArgOrder} {argv : List Bytes} {pc pc' : Pc}
    (h : Goes order argv pc pc') (hbound : pc'.isBound = true) : pc.isBound = true := by
  cases h with
  | listens | polls | serves => rfl
  | parses | starts | leaves | creates | exits | dies => cases hbound

/-- After a `bind` nothing has happened to the name, or another instance has
removed it next. -/
def Displaced (log : List Event) : Prop :=
  ∀ k before after, log = before ++ .bound k :: after →
    after = [] ∨ ∃ j rest, j ≠ k ∧ after = .cleared j :: rest

theorem Displaced.append {log : List Event} {e : Event} (h : Displaced log)
    (hnext : ∀ k, log.getLast? = some (.bound k) → ∃ j, j ≠ k ∧ e = .cleared j) :
    Displaced (log ++ [e]) := by
  intro k before after hlog
  rcases List.eq_nil_or_concat after with rfl | ⟨front, e', rfl⟩
  · exact .inl rfl
  · right
    have hsplit : log ++ [e] = before ++ .bound k :: front ++ [e'] := by
      rw [hlog, List.concat_eq_append, List.append_assoc, List.cons_append]
    obtain ⟨hfront, hlast⟩ := List.append_inj' hsplit rfl
    cases hlast
    rw [List.concat_eq_append]
    rcases h k before front hfront with rfl | ⟨j, rest, hne, rfl⟩
    · obtain ⟨j, hne, rfl⟩ := hnext k (by rw [hfront]; simp)
      exact ⟨j, [], hne, rfl⟩
    · exact ⟨j, rest ++ [e], hne, rfl⟩

/-- The name, the history of the name, and where the instances are. -/
structure Named (s : Host) : Prop where
  path : ∀ k, s.socketPath = some k ↔ s.log.getLast? = some (.bound k)
  displaced : Displaced s.log
  known : ∀ k, .bound k ∈ s.log → k < s.instances.length
  unbound : ∀ (k : Nat) inst, s.instances[k]? = some inst →
    inst.pc.isBefore = true → .bound k ∉ s.log
  has_bound : ∀ (k : Nat) inst, s.instances[k]? = some inst →
    inst.pc.isBound = true → .bound k ∈ s.log

theorem get_moved {s : Host} {k : Nat} {inst : Instance}
    (hinst : s.instances[k]? = some inst) (pc : Pc) (j : Nat) :
    (s.instances.set k { inst with pc := pc })[j]? =
      if j = k then some { inst with pc := pc } else s.instances[j]? := by
  have hlt := (List.getElem?_eq_some_iff.1 hinst).1
  rw [List.getElem?_set]
  by_cases hjk : j = k
  · rw [if_pos hjk.symm, if_pos (hjk ▸ hlt), if_pos hjk]
  · rw [if_neg (Ne.symm hjk), if_neg hjk]

theorem Named.start {s : Host} (h : Named s) (order : ArgOrder)
    (argv : List Bytes) :
    Named { s with
      instances := s.instances ++
        [{ order := order, argv := argv, pc := .entered }] } := by
  have hcases : ∀ (k : Nat) inst, (s.instances ++
      [{ order := order, argv := argv, pc := Pc.entered }])[k]? = some inst →
        s.instances[k]? = some inst ∨
          k = s.instances.length ∧ inst.pc = .entered := by
    intro k inst hinst
    by_cases hlt : k < s.instances.length
    · rw [List.getElem?_append_left hlt] at hinst
      exact .inl hinst
    · have hk := (List.getElem?_eq_some_iff.1 hinst).1
      rw [List.length_append, List.length_singleton] at hk
      have hlast : k = s.instances.length := by omega
      rw [hlast, List.getElem?_concat_length] at hinst
      cases hinst
      exact .inr ⟨hlast, rfl⟩
  refine { h with known := ?_, unbound := ?_, has_bound := ?_ }
  · intro k hk
    have := h.known k hk
    rw [List.length_append]
    omega
  · intro k inst hinst hbefore
    rcases hcases k inst hinst with hold | ⟨hlast, -⟩
    · exact h.unbound k inst hold hbefore
    · intro hmem
      have := h.known k hmem
      omega
  · intro k inst hinst hbound
    rcases hcases k inst hinst with hold | ⟨-, hentered⟩
    · exact h.has_bound k inst hold hbound
    · rw [hentered] at hbound
      cases hbound

theorem Named.goes {s : Host} (h : Named s) {k : Nat} {inst : Instance} {pc : Pc}
    (hinst : s.instances[k]? = some inst)
    (hgoes : Goes inst.order inst.argv inst.pc pc) :
    Named { s with instances := s.instances.set k { inst with pc := pc } } := by
  refine { h with known := ?_, unbound := ?_, has_bound := ?_ }
  · intro j hj
    rw [List.length_set]
    exact h.known j hj
  · intro j other hother hbefore
    rw [get_moved hinst] at hother
    split at hother
    · rename_i hjk
      cases hother
      exact h.unbound j inst (hjk ▸ hinst) (hgoes.isBefore hbefore)
    · exact h.unbound j other hother hbefore
  · intro j other hother hbound
    rw [get_moved hinst] at hother
    split at hother
    · rename_i hjk
      cases hother
      exact h.has_bound j inst (hjk ▸ hinst) (hgoes.isBound hbound)
    · exact h.has_bound j other hother hbound

theorem Named.clears {s : Host} (h : Named s) {k : Nat} {inst : Instance}
    {config : ArgConfig} (hinst : s.instances[k]? = some inst)
    (hpc : inst.pc = .starting config) :
    Named
      { instances := s.instances.set k { inst with pc := .unlinked config }
        socketPath := none
        log := s.log ++ [.cleared k] } := by
  have hmem : ∀ j, .bound j ∈ s.log ++ [Event.cleared k] ↔ .bound j ∈ s.log := by
    intro j
    simp
  have hfresh : .bound k ∉ s.log := h.unbound k inst hinst (by rw [hpc]; rfl)
  refine
    { path := ?_, displaced := ?_, known := ?_, unbound := ?_, has_bound := ?_ }
  · intro j
    simp
  · refine h.displaced.append fun j hlast => ⟨k, ?_, rfl⟩
    rintro rfl
    exact hfresh (List.mem_of_getLast? hlast)
  · intro j hj
    rw [List.length_set]
    exact h.known j ((hmem j).1 hj)
  · intro j other hother hbefore hj
    rw [get_moved hinst] at hother
    split at hother
    · rename_i hjk
      exact hfresh (hjk ▸ (hmem j).1 hj)
    · exact h.unbound j other hother hbefore ((hmem j).1 hj)
  · intro j other hother hbound
    rw [get_moved hinst] at hother
    split at hother
    · cases hother
      cases hbound
    · exact (hmem j).2 (h.has_bound j other hother hbound)

theorem Named.binds {s : Host} (h : Named s) {k : Nat} {inst : Instance}
    {config : ArgConfig} (hinst : s.instances[k]? = some inst)
    (hfree : s.socketPath = none) :
    Named
      { instances := s.instances.set k { inst with pc := .bound config }
        socketPath := some k
        log := s.log ++ [.bound k] } := by
  refine
    { path := ?_, displaced := ?_, known := ?_, unbound := ?_, has_bound := ?_ }
  · intro j
    simp
  · refine h.displaced.append fun j hlast => ?_
    rw [(h.path j).2 hlast] at hfree
    cases hfree
  · intro j hj
    rw [List.length_set]
    rcases List.mem_append.1 hj with hold | hnew
    · exact h.known j hold
    · cases List.mem_singleton.1 hnew
      exact (List.getElem?_eq_some_iff.1 hinst).1
  · intro j other hother hbefore hj
    rw [get_moved hinst] at hother
    split at hother
    · cases hother
      cases hbefore
    · rename_i hjk
      rcases List.mem_append.1 hj with hold | hnew
      · exact h.unbound j other hother hbefore hold
      · cases List.mem_singleton.1 hnew
        exact hjk rfl
  · intro j other hother hbound
    rw [get_moved hinst] at hother
    split at hother
    · rename_i hjk
      rw [hjk]
      exact List.mem_append_right _ (List.mem_singleton.2 rfl)
    · exact List.mem_append_left _ (h.has_bound j other hother hbound)

theorem Named.step {s t : Host} {a : Action} (h : Named s)
    (hstep : step s a = some t) : Named t := by
  cases step_cases hstep with
  | start order argv => exact h.start order argv
  | @moves k inst pc path events hinst hmoves =>
      generalize hpc : inst.pc = before at hmoves
      cases hmoves with
      | clears => exact h.clears hinst hpc
      | binds hfree => exact h.binds hinst hfree
      | goes hgoes =>
          rw [List.append_nil]
          exact h.goes hinst (hpc ▸ hgoes)

theorem named_of_reachable {s : Host} (h : machine.Reachable s) : Named s := by
  apply Machine.ReachableIf.invariant ?_ ?_ h
  · rintro s ⟨hinstances, hpath, hlog⟩
    refine
      { path := ?_, displaced := ?_, known := ?_, unbound := ?_, has_bound := ?_ }
    · intro k
      simp [hpath, hlog]
    · intro k before after hsplit
      rw [hlog] at hsplit
      simp at hsplit
    · intro k hk
      rw [hlog] at hk
      cases hk
    · intro k inst hinst
      simp [hinstances] at hinst
    · intro k inst hinst
      simp [hinstances] at hinst
  · intro s a t _ _ hs hstep
    exact hs.step hstep

/-- Whether clients come to an instance, and what may be in its way. -/
structure ConnectsExactly (s : Host) (k : Nat) (inst : Instance) : Prop where
  connects_iff : connects s = some k ↔
    inst.pc.isListening = true ∧ ∃ before, s.log = before ++ [.bound k]
  cut_off : inst.pc.isListening = true → connects s ≠ some k →
    ∃ j before after, j ≠ k ∧ s.log = before ++ .bound k :: .cleared j :: after
  refused : ∀ config, inst.pc = .created config → .cleared k ∈ s.log →
    s.socketPath ≠ none →
      ∃ j before between, j ≠ k ∧
        s.log = before ++ .cleared k :: between ++ [.bound j]

theorem connects_eq_some_iff {s : Host} {k : Nat} {inst : Instance}
    (hinst : s.instances[k]? = some inst) :
    connects s = some k ↔
      inst.pc.isListening = true ∧ s.socketPath = some k := by
  unfold connects
  cases hpath : s.socketPath with
  | none => simp
  | some j =>
      rw [Option.bind_some, Option.some.injEq]
      constructor
      · intro h
        obtain ⟨other, hother, hrest⟩ := Option.bind_eq_some_iff.1 h
        rw [Option.ite_none_right_eq_some] at hrest
        have hjk : j = k := Option.some.inj hrest.2
        rw [hjk, hinst] at hother
        cases hother
        exact ⟨hrest.1, hjk⟩
      · intro h
        rw [h.2, hinst, Option.bind_some, if_pos h.1]

/-- **Who is reached.**  Clients come to an instance exactly while it listens and
nobody has touched the name since its `bind`.  Only the `unlink` of another instance
cuts it off, and after an `unlink` of its own that left no name, `bind` is refused
for the name only where another instance has taken it in between. -/
theorem connects_exact {s : Host} (h : machine.Reachable s) {k : Nat}
    {inst : Instance} (hinst : s.instances[k]? = some inst) :
    ConnectsExactly s k inst := by
  have hnamed := named_of_reachable h
  have hiff := connects_eq_some_iff hinst
  refine { connects_iff := ?_, cut_off := ?_, refused := ?_ }
  · rw [hiff, hnamed.path, List.getLast?_eq_some_iff]
  · intro hlistening hnot
    have hbound : inst.pc.isBound = true := by
      cases hpc : inst.pc with
      | bound config => rfl
      | listening config | polling config | serving config => rfl
      | entered | parsed config | starting config | unlinked config
      | created config | exited code | killed =>
          rw [hpc] at hlistening
          cases hlistening
    obtain ⟨before, after, hlog⟩ :=
      List.append_of_mem (hnamed.has_bound k inst hinst hbound)
    rcases hnamed.displaced k before after hlog with rfl | ⟨j, rest, hne, rfl⟩
    · refine absurd (hiff.2 ⟨hlistening, ?_⟩) hnot
      rw [hnamed.path, hlog]
      simp
    · exact ⟨j, before, rest, hne, hlog⟩
  · intro config hpc hcleared hpath
    obtain ⟨j, hj⟩ := Option.ne_none_iff_exists'.1 hpath
    obtain ⟨front, hlog⟩ := List.getLast?_eq_some_iff.1 ((hnamed.path j).1 hj)
    have hunbound := hnamed.unbound k inst hinst (by rw [hpc]; rfl)
    have hne : j ≠ k := by
      rintro rfl
      refine hunbound ?_
      rw [hlog]
      simp
    have hfront : .cleared k ∈ front := by
      rw [hlog] at hcleared
      simpa using hcleared
    obtain ⟨before, between, rfl⟩ := List.append_of_mem hfront
    exact ⟨j, before, between, hne, hlog⟩

/-- A second instance takes the name of the first one, which goes on serving those
who have found it before. -/
theorem connects_exact_displaced :
    ∃ (s : Host) (inst : Instance), machine.Reachable s ∧
      s.instances[0]? = some inst ∧ inst.pc.isListening = true ∧
      connects s = some 1 ∧ ConnectsExactly s 0 inst := by
  obtain ⟨s, hreach, hs⟩ := Machine.exists_reachable_of_run (M := machine)
    (s := { instances := [], socketPath := none, log := [] }) ⟨rfl, rfl, rfl⟩
    (l := .start .permute sampleArgv :: List.replicate 8 (.advance 0 true) ++
      .start .permute sampleArgv :: List.replicate 8 (.advance 1 true))
    (p := fun s => decide (connects s = some 1) &&
      (s.instances[0]?).any fun inst => inst.pc.isListening)
    (by decide +kernel)
  rw [Bool.and_eq_true] at hs
  obtain ⟨inst, hinst, hlistening⟩ := (Option.any_eq_true _ _).1 hs.2
  exact ⟨s, inst, hreach, hinst, hlistening, of_decide_eq_true hs.1,
    connects_exact hreach hinst⟩

/-! ## What the options come to -/

/-- The options that an instance goes on with. -/
def Pc.config? : Pc → Option ArgConfig
  | .parsed config | .starting config | .unlinked config | .created config
  | .bound config | .listening config | .polling config | .serving config =>
      some config
  | .entered | .exited _ | .killed => none

/-- The options are those of the command line. -/
def Configured (inst : Instance) : Prop :=
  ∀ config, inst.pc.config? = some config →
    parseArguments inst.order inst.argv ⟨0, 0, 0⟩ = (.ok, config)

theorem Configured.goes {inst : Instance} {pc : Pc} (h : Configured inst)
    (hgoes : Goes inst.order inst.argv inst.pc pc) :
    Configured { inst with pc := pc } := by
  intro config hconfig
  generalize hpc : inst.pc = before at hgoes
  cases hgoes with
  | parses hparse =>
      cases hconfig
      exact hparse
  | starts | leaves | creates | listens | polls | serves =>
      refine h config ?_
      rw [hpc]
      exact hconfig
  | exits code => cases hconfig
  | dies => cases hconfig

theorem Configured.moves {inst : Instance} {pc : Pc} {path path' : Option Nat}
    {k : Nat} {events : List Event} (h : Configured inst)
    (hmoves : Moves path k inst.order inst.argv inst.pc pc path' events) :
    Configured { inst with pc := pc } := by
  generalize hpc : inst.pc = before at hmoves
  cases hmoves with
  | clears | binds hfree =>
      intro config hconfig
      refine h config ?_
      rw [hpc]
      exact hconfig
  | goes hgoes => exact h.goes (hpc ▸ hgoes)

theorem configured_of_reachable {s : Host} (h : machine.Reachable s) :
    ∀ (k : Nat) inst, s.instances[k]? = some inst → Configured inst := by
  apply Machine.ReachableIf.invariant (I := fun s : Host => ∀ (k : Nat) inst,
    s.instances[k]? = some inst → Configured inst) ?_ ?_ h
  · rintro s ⟨hinstances, -, -⟩ k inst hinst
    simp [hinstances] at hinst
  · intro s a t _ _ hs hstep
    cases step_cases hstep with
    | start order argv =>
        intro k inst hinst
        have hmem := List.mem_of_getElem? hinst
        rcases List.mem_append.1 hmem with hold | hnew
        · obtain ⟨j, hj⟩ := List.getElem?_of_mem hold
          exact hs j inst hj
        · rw [List.mem_singleton.1 hnew]
          intro config hconfig
          cases hconfig
    | @moves k moved pc path events hmoved hmoves =>
        intro j inst hinst
        rw [get_moved hmoved] at hinst
        split at hinst
        · cases hinst
          exact (hs k moved hmoved).moves hmoves
        · exact hs j inst hinst

/-- An instance where it enters the loop: `n` workers, the cache that `main` has
just made, and no client yet.  The workers have been running since the pool was
made, but without a task they do nothing that another order would not do as
well. -/
def entersLoop (n : Nat) (options : ArgConfig) (clock : TimePoint) :
    Service n where
  process :=
    { server :=
        { pool := ThreadPool.new
          fetches :=
            { now := clock
              cache := UdsCache.new (some options.toCacheConfig)
              calls := [] }
          accepted := 0
          journal := fun _ => [] }
      main := .waiting }
  connections := []
  queries := []

theorem init_entersLoop {cJsonParse : Bytes → Option CJson} (n : Nat)
    {config : SoundConfig} {options : ArgConfig} (clock : TimePoint)
    (hconfig : config.toCacheConfig = options.toCacheConfig) :
    (Exchange.machine cJsonParse n config).init (entersLoop n options clock) := by
  refine ⟨⟨⟨rfl, ⟨?_, rfl⟩, rfl, rfl⟩, rfl⟩, rfl, rfl⟩
  rw [hconfig]
  rfl

/-- **From the command line to the clients.**  Whatever an instance that serves was
started with, its clients' answers keep to the bounds that its options say: an
answer that was not fetched for its own request comes from an entry that was
younger than they allow when it was looked up. -/
theorem options_reach_clients (cJsonParse : Bytes → Option CJson) {s : Host}
    (h : machine.Reachable s) {k : Nat} {inst : Instance} {options : ArgConfig}
    (hinst : s.instances[k]? = some inst)
    (hserving : inst.pc = .serving options) :
    SoundFor inst.order inst.argv options ∧
      ∃ config : SoundConfig, config.toCacheConfig = options.toCacheConfig ∧
        ∀ (n : Nat) (clock : TimePoint) (t : Service n),
          (Exchange.machine cJsonParse n config).LeadsTo (fun _ _ => True)
              (entersLoop n options clock) t →
            ∀ (j : Nat) (query : Query) (response : BkkUdsResponse),
              t.queries[j]? = some query →
                query.pc = .returned .ok (some response) →
                  ∃ conn, Answers cJsonParse config t j query response conn := by
  have hparse := configured_of_reachable h k inst hinst options
    (by rw [hserving]; rfl)
  obtain ⟨config, hconfig⟩ := exists_soundConfig hparse
  refine ⟨parseArguments_ok hparse, config, hconfig, ?_⟩
  intro n clock t hruns j query response hquery hreturned
  have hreach : (Exchange.machine cJsonParse n config).Reachable t :=
    (Machine.ReachableIf.start (init_entersLoop n clock hconfig)).trans hruns
  exact answers_of_response hreach hquery (by rw [hreturned]; rfl)

/-- `bkk_uds_server x -f 15 -s45`, where the options stand behind an operand. -/
def operandArgv : List Bytes :=
  [bytesOf "bkk_uds_server", bytesOf "x", bytesOf "-f", bytesOf "15",
    bytesOf "-s45"]

/-- With the GNU library the options behind the operand count, for every response
that the clients get. -/
theorem options_reach_clients_sample :
    SoundFor .permute operandArgv ⟨15, 45, 100⟩ ∧
      ∃ config : SoundConfig, config.stalenessSeconds = 45 ∧
        ∀ (t : Service 1),
          (Exchange.machine Server.Fetching.sampleParse 1 config).LeadsTo
              (fun _ _ => True)
              (entersLoop 1 ⟨15, 45, 100⟩ ⟨0, by decide⟩) t →
            ∀ (j : Nat) (query : Query) (response : BkkUdsResponse),
              t.queries[j]? = some query →
                query.pc = .returned .ok (some response) →
                  ∃ conn, Answers Server.Fetching.sampleParse config t j query
                    response conn := by
  obtain ⟨s, hreach, hs⟩ := Machine.exists_reachable_of_run (M := machine)
    (s := { instances := [], socketPath := none, log := [] }) ⟨rfl, rfl, rfl⟩
    (l := .start .permute operandArgv :: List.replicate 8 (.advance 0 true))
    (p := fun s => (s.instances[0]?).any fun inst : Instance =>
      decide (inst.order = .permute ∧ inst.argv = operandArgv ∧
        inst.pc = .serving ⟨15, 45, 100⟩))
    (by decide +kernel)
  obtain ⟨inst, hinst, hall⟩ := (Option.any_eq_true _ _).1 hs
  obtain ⟨horder, hargv, hserving⟩ := of_decide_eq_true hall
  obtain ⟨hsound, config, hconfig, hanswers⟩ :=
    options_reach_clients Server.Fetching.sampleParse hreach hinst hserving
  rw [horder, hargv] at hsound
  refine ⟨hsound, config, ?_, hanswers 1 _⟩
  exact congrArg CacheConfig.stalenessSeconds hconfig

end BkkApi.System.Startup
