import BkkApi.Verified.Buffer
import BkkApi.Verified.Strings
import BkkApi.Verified.Strtol

/-!
# Reading the API key from a file

`read_api_key_from_file` of `bkk_stop_utils.c`: the whole file goes to a buffer,
two scans trim it from both ends, and what is left goes to a block of its own with
a terminator behind it.  `FileCalls` is what the calls to the library do.

No scan leaves the buffer, and a key that is delivered is the trimmed content of
the file (`readApiKeyFromFile_cases`).  The README promises the first line of the
file.  `apiKey_oneLine_iff` says when that is what a caller gets: there must be no
second line that is not blank, and no NUL byte.
-/

namespace BkkApi.Client.ApiKeyFile

open BkkApi.Verified.CData
open BkkApi.Verified.Buffer
open BkkApi.Verified.Strings
open BkkApi.Verified.Strtol

/-! ## The function -/

/-- `api_key_read_stat_t`. -/
inductive ApiKeyReadStat
  | ok
  | error
  deriving DecidableEq

/-- What the library does for one reading. -/
structure FileCalls where
  /-- The content of the file that `fopen` opens; `none` where it returns `NULL`. -/
  fopen : Bytes → Option Bytes
  /-- Whether `ftell` can tell the position. -/
  tells : Bool
  /-- Whether the two calls of `malloc` succeed. -/
  bufferAllocated : Bool
  keyAllocated : Bool
  /-- Behind how many bytes `fread` meets an error, if it does. -/
  readError : Option Nat

/-- `ftell` at the end of the file. -/
def FileCalls.ftell (calls : FileCalls) (content : Bytes) : Int :=
  if calls.tells then content.length else -1

/-- The bytes that `fread` gets of `count` bytes, from the start of the file. -/
def FileCalls.fread (calls : FileCalls) (content : Bytes) (count : Nat) : Bytes :=
  content.take (min count (calls.readError.getD count))

/-- From the terminated buffer on: the scans, and the copy in a block of its own,
which is `none` where that is not allocated.  There is no result where a scan or
the copying leaves its block. -/
def trimmedKey (keyAllocated : Bool) (buffer : Block UInt8) (fileSize : Nat) :
    Option (Option (Block UInt8)) := do
  let start ← skipForward isSpace buffer fileSize 0
  let stop ← skipBack isSpace buffer start fileSize
  let keyLength := stop - start
  if keyAllocated = false then some none
  else do
    let key ← (Block.fresh (keyLength + 1)).copy buffer start keyLength
    let key ← key.write keyLength 0
    some (some key)

/-- `read_api_key_from_file`: the status, and `*key_out` afterwards.  There is no
result where it reads or writes outside its memory. -/
def readApiKeyFromFile (calls : FileCalls) (path : Option Bytes)
    (keyOut : Option (Option (Block UInt8))) :
    Option (ApiKeyReadStat × Option (Option (Block UInt8))) :=
  match path, keyOut with
  | some path, some _ =>
      match calls.fopen path with
      | none => some (.error, keyOut)
      | some content =>
          let fileSize := calls.ftell content
          if fileSize < 0 ∨ calls.bufferAllocated = false then some (.error, keyOut)
          else
            let size := fileSize.toNat
            let bytes := calls.fread content size
            if bytes.length ≠ size then some (.error, keyOut)
            else do
              let room := Block.fresh (size + 1 - bytes.length)
              let buffer ← (Block.filled bytes ++ room).write size 0
              let key ← trimmedKey calls.keyAllocated buffer size
              match key with
              | none => some (.error, keyOut)
              | some key => some (.ok, some (some key))
  | _, _ => some (.error, keyOut)

/-! ## What it delivers -/

/-- The scans stay in the buffer, and the block of the key has room for what is left
and its terminator. -/
theorem trimmedKey_filled (keyAllocated : Bool) (bytes : Bytes)
    (room : Block UInt8) :
    trimmedKey keyAllocated (Block.filled bytes ++ room) bytes.length =
      some (if keyAllocated = false then none
        else some (Block.filled (trim isSpace bytes ++ [0]))) := by
  obtain ⟨start, stop, hforward, hback, hle, hstop, htrim⟩ :=
    skip_filled isSpace bytes room
  have hfits : start + (stop - start) ≤ bytes.length := by omega
  have hcopy : (Block.fresh (stop - start + 1)).copy (Block.filled bytes ++ room)
      start (stop - start) =
        some (Block.filled (trim isSpace bytes) ++ Block.fresh 1) := by
    rw [Block.copy_filled hfits room 1, htrim]
    rfl
  have hlength : stop - start = (trim isSpace bytes).length := by
    have hsame := congrArg List.length htrim
    rw [List.length_take, List.length_drop] at hsame
    unfold trim
    omega
  have hwrite : (Block.filled (trim isSpace bytes) ++ Block.fresh 1).write
      (stop - start) 0 = some (Block.filled (trim isSpace bytes ++ [0])) := by
    rw [hlength]
    exact (Block.write_next _ none [] 0).trans (by rw [List.append_nil])
  unfold trimmedKey
  simp only [hforward, hback, Option.bind_eq_bind, Option.bind_some]
  cases keyAllocated with
  | false => rfl
  | true =>
      show ((Block.fresh _).copy _ start (stop - start)).bind _ = _
      rw [hcopy]
      show (Block.write _ (stop - start) 0).bind _ = _
      rw [hwrite]
      rfl

/-- The calls before the scans succeed for a file of this content. -/
structure FileCalls.Succeed (calls : FileCalls) (content : Bytes) : Prop where
  tells : calls.tells = true
  bufferAllocated : calls.bufferAllocated = true
  fread : calls.fread content content.length = content

theorem FileCalls.succeed_of_length {calls : FileCalls} {content : Bytes}
    (htells : calls.tells = true) (hbuffer : calls.bufferAllocated = true)
    (hread : (calls.fread content content.length).length = content.length) :
    calls.Succeed content where
  tells := htells
  bufferAllocated := hbuffer
  fread := (List.take_prefix _ content).eq_of_length hread

theorem readApiKeyFromFile_of_succeed {calls : FileCalls} {name content : Bytes}
    (hfile : calls.fopen name = some content) (h : calls.Succeed content)
    (before : Option (Block UInt8)) :
    readApiKeyFromFile calls (some name) (some before) =
      some (if calls.keyAllocated = false then (.error, some before)
        else (.ok, some (some (Block.filled (trim isSpace content ++ [0]))))) := by
  have htell : calls.ftell content = content.length := by
    rw [FileCalls.ftell, if_pos h.tells]
  have hgoes : ¬(calls.ftell content < 0 ∨ calls.bufferAllocated = false) := by
    rw [htell, h.bufferAllocated]
    simp
  have hroom : content.length + 1 - content.length = 1 := by omega
  have hwrite : (Block.filled content ++ Block.fresh 1).write content.length 0 =
      some (Block.filled content ++ Block.filled [0]) :=
    (Block.write_next content none [] 0).trans (by simp [Block.filled])
  unfold readApiKeyFromFile
  simp only [hfile]
  rw [if_neg hgoes, htell, Int.toNat_natCast, h.fread, if_neg (by simp), hroom]
  simp only [hwrite, trimmedKey_filled, Option.bind_eq_bind, Option.bind_some]
  by_cases hkey : calls.keyAllocated = false
  · rw [if_pos hkey, if_pos hkey]
  · rw [if_neg hkey, if_neg hkey]

theorem readApiKeyFromFile_of_not_succeed {calls : FileCalls}
    {name content : Bytes} (hfile : calls.fopen name = some content)
    (h : ¬calls.Succeed content) (before : Option (Block UInt8)) :
    readApiKeyFromFile calls (some name) (some before) =
      some (.error, some before) := by
  unfold readApiKeyFromFile
  simp only [hfile]
  by_cases hfails : calls.ftell content < 0 ∨ calls.bufferAllocated = false
  · rw [if_pos hfails]
  · obtain ⟨hposition, hbuffer⟩ := not_or.1 hfails
    have htells : calls.tells = true := by
      apply Classical.byContradiction
      intro hfalse
      apply hposition
      rw [FileCalls.ftell, if_neg hfalse]
      decide
    have htell : calls.ftell content = content.length := by
      rw [FileCalls.ftell, if_pos htells]
    have hshort : (calls.fread content content.length).length ≠ content.length :=
      fun hread => h (FileCalls.succeed_of_length htells
        (eq_true_of_ne_false hbuffer) hread)
    rw [if_neg hfails, htell, Int.toNat_natCast, if_pos hshort]

/-- What a reading can end in: it stays inside its memory, and either fails and
leaves `*key_out` as it was, or delivers the trimmed content with a terminator. -/
theorem readApiKeyFromFile_cases (calls : FileCalls) (path : Option Bytes)
    (keyOut : Option (Option (Block UInt8))) :
    readApiKeyFromFile calls path keyOut = some (.error, keyOut) ∨
      ∃ name content, path = some name ∧ calls.fopen name = some content ∧
        readApiKeyFromFile calls path keyOut =
          some (.ok, some (some (Block.filled (trim isSpace content ++ [0])))) := by
  cases path with
  | none => exact Or.inl rfl
  | some name =>
      cases keyOut with
      | none => exact Or.inl rfl
      | some before =>
          cases hfile : calls.fopen name with
          | none =>
              left
              unfold readApiKeyFromFile
              simp only [hfile]
          | some content =>
              by_cases h : calls.Succeed content
              · have heq := readApiKeyFromFile_of_succeed hfile h before
                by_cases hkey : calls.keyAllocated = false
                · left
                  rw [heq, if_pos hkey]
                · right
                  refine ⟨name, content, rfl, hfile, ?_⟩
                  rw [heq, if_neg hkey]
              · exact Or.inl (readApiKeyFromFile_of_not_succeed hfile h before)

/-! ## The first line -/

/-- What ends a line: newlines, and perhaps other white space. -/
structure LineEnds where
  isBreak : UInt8 → Bool
  newline : isBreak 10 = true
  space : ∀ b, isBreak b = true → isSpace b = true

/-- Only newlines. -/
def LineEnds.unix : LineEnds where
  isBreak := fun b => b == 10
  newline := rfl
  space := by
    intro b hb
    rw [beq_iff_eq.1 hb]
    rfl

/-- The C string in a block. -/
def keyString (block : Block UInt8) : Option Bytes :=
  block.readUntil fun b => b == 0

/-- A key that is the first line of a file that is not blank, and one clean line:
without a line break, and with no white space around it. -/
structure OneCleanLine (ends : LineEnds) (content key : Bytes) : Prop where
  eq_firstLine : key = firstLine ends.isBreak isSpace content
  no_break : ∀ b ∈ key, ends.isBreak b = false
  front : ∀ b, key.head? = some b → isSpace b = false
  back : ∀ b, key.getLast? = some b → isSpace b = false

theorem oneCleanLine_firstLine (ends : LineEnds) (content : Bytes) :
    OneCleanLine ends content (firstLine ends.isBreak isSpace content) := by
  rcases firstLine_cases ends.isBreak isSpace content with hnil | ⟨line, hmem, hline⟩
  · rw [hnil]
    exact
      { eq_firstLine := hnil.symm
        no_break := by simp
        front := by simp
        back := by simp }
  · refine ⟨rfl, ?_, ?_, ?_⟩
    · intro b hb
      rw [hline] at hb
      exact brk_of_mem_lines hmem (mem_of_mem_trim hb)
    · intro b hb
      rw [hline] at hb
      exact Bool.eq_false_iff.2 (head?_trim hb)
    · intro b hb
      rw [hline] at hb
      exact Bool.eq_false_iff.2 (getLast?_trim hb)

/-- The C string that is delivered, up to the first NUL byte. -/
theorem keyString_filled (text : Bytes) :
    keyString (Block.filled (text ++ [0])) = some (cString text) := by
  have hread : keyString (Block.filled (text ++ [0]) ++ []) = some (cString text) :=
    Block.readUntil_filled rfl []
  rw [List.append_nil] at hread
  exact hread

/-- The C string of a trimmed text is its first line exactly if it has no NUL byte
and no second line. -/
theorem oneCleanLine_cString_iff (ends : LineEnds) (content : Bytes) :
    OneCleanLine ends content (cString (trim isSpace content)) ↔
      0 ∉ content ∧ (cleanLines ends.isBreak isSpace content).length ≤ 1 := by
  have hkeep : ∀ b : UInt8, isSpace b = true → (b != 0) = true := by
    intro b hb
    apply bne_iff_ne.2
    intro hzero
    rw [hzero] at hb
    cases hb
  have hzero : (∀ b ∈ content, (b != 0) = true) ↔ 0 ∉ content := by
    constructor
    · intro hall hmem
      exact bne_iff_ne.1 (hall 0 hmem) rfl
    · intro hnot b hmem
      apply bne_iff_ne.2
      intro heq
      exact hnot (heq ▸ hmem)
  rw [← hzero, ← takeWhile_trim_eq_iff hkeep ends.space]
  constructor
  · intro h
    exact h.eq_firstLine
  · intro heq
    have hclean := oneCleanLine_firstLine ends content
    rw [← heq] at hclean
    exact hclean

/-- No reading leaves its memory, and a key that is delivered is the first line of
the file, and clean, exactly if the file has no NUL byte and no second line that is
not blank. -/
theorem apiKey_oneLine_iff (ends : LineEnds) (calls : FileCalls)
    {name content : Bytes} {keyOut after : Option (Option (Block UInt8))}
    (hfile : calls.fopen name = some content)
    (hok : readApiKeyFromFile calls (some name) keyOut = some (.ok, after)) :
    (∀ path keyOut, readApiKeyFromFile calls path keyOut ≠ none) ∧
      ((∃ block key, after = some (some block) ∧ keyString block = some key ∧
          OneCleanLine ends content key) ↔
        0 ∉ content ∧ (cleanLines ends.isBreak isSpace content).length ≤ 1) := by
  constructor
  · intro path keyOut
    rcases readApiKeyFromFile_cases calls path keyOut with herror | ⟨_, _, -, -, hkey⟩
    · rw [herror]
      exact Option.some_ne_none _
    · rw [hkey]
      exact Option.some_ne_none _
  · have hafter : after = some (some (Block.filled (trim isSpace content ++ [0]))) := by
      rcases readApiKeyFromFile_cases calls (some name) keyOut with
        herror | ⟨name', content', hname, hopened, hkey⟩
      · rw [herror] at hok
        cases hok
      · rw [← Option.some.inj hname, hfile] at hopened
        rw [hkey, ← Option.some.inj hopened] at hok
        exact (congrArg Prod.snd (Option.some.inj hok)).symm
    rw [← oneCleanLine_cString_iff, hafter]
    constructor
    · intro hdelivered
      obtain ⟨block, key, hblock, hkey, hclean⟩ := hdelivered
      have hsame := Option.some.inj (Option.some.inj hblock)
      rw [← hsame, keyString_filled] at hkey
      rw [Option.some.inj hkey]
      exact hclean
    · intro hclean
      exact ⟨_, _, rfl, keyString_filled _, hclean⟩

/-- All calls succeed, for a file of this content. -/
def plainFile (content : Bytes) : FileCalls where
  fopen := fun _ => some content
  tells := true
  bufferAllocated := true
  keyAllocated := true
  readError := none

theorem readApiKeyFromFile_plainFile (content name : Bytes)
    (before : Option (Block UInt8)) :
    readApiKeyFromFile (plainFile content) (some name) (some before) =
      some (.ok, some (some (Block.filled (trim isSpace content ++ [0])))) := by
  have hsucceed : (plainFile content).Succeed content :=
    FileCalls.succeed_of_length rfl rfl (by simp [FileCalls.fread, plainFile])
  exact readApiKeyFromFile_of_succeed rfl hsucceed before

/-- A blank line, the key, and CRLF line ends: the key is delivered. -/
theorem apiKey_oneLine_iff_crlf : ∃ after,
    readApiKeyFromFile (plainFile (bytesOf "\r\n  KEY\r\n"))
        (some (bytesOf "api_key.txt")) (some none) = some (.ok, after) ∧
      ∃ block key, after = some (some block) ∧ keyString block = some key ∧
        OneCleanLine LineEnds.unix (bytesOf "\r\n  KEY\r\n") key := by
  have hok := readApiKeyFromFile_plainFile (bytesOf "\r\n  KEY\r\n")
    (bytesOf "api_key.txt") none
  exact ⟨_, hok, (apiKey_oneLine_iff LineEnds.unix _ rfl hok).2.2
    ⟨by decide, by decide⟩⟩

/-- A second line is delivered along with the key. -/
theorem apiKey_secondLine :
    readApiKeyFromFile (plainFile (bytesOf "KEY\nsecond\n"))
        (some (bytesOf "api_key.txt")) (some none) =
      some (.ok, some (some (Block.filled (bytesOf "KEY\nsecond" ++ [0])))) ∧
    keyString (Block.filled (bytesOf "KEY\nsecond" ++ [0])) =
      some (bytesOf "KEY\nsecond") ∧
    firstLine LineEnds.unix.isBreak isSpace (bytesOf "KEY\nsecond\n") =
      bytesOf "KEY" ∧
    ¬OneCleanLine LineEnds.unix (bytesOf "KEY\nsecond\n") (bytesOf "KEY\nsecond") := by
  have hfirst : firstLine LineEnds.unix.isBreak isSpace (bytesOf "KEY\nsecond\n") =
      bytesOf "KEY" := by decide
  refine ⟨?_, by decide, hfirst, ?_⟩
  · rw [readApiKeyFromFile_plainFile]
    decide
  · intro hclean
    have heq := hclean.eq_firstLine
    rw [hfirst] at heq
    exact absurd heq (by decide)

end BkkApi.Client.ApiKeyFile
