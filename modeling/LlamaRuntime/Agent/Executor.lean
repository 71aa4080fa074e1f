/-
The executor of read-only tools.

* `execute` — `AllowlistedReadOnlyExecutor.execute`; the I/O of a tool begins
  with `touch`;
* `searchText` — `_search`.
-/
import LlamaRuntime.Agent.Tools

open Json

namespace Agent

variable {F : Type} [Host F]

/-! ### Texts of files -/

abbrev carriageReturn : CodePoint := 0x0D
abbrev lineFeed : CodePoint := 0x0A

/-- Reading in text mode: `\r\n` and `\r` become `\n`. -/
def translateNewlines : PyStr → PyStr
  | [] => []
  | c :: rest =>
    if c = carriageReturn then
      match rest with
      | d :: rest' =>
        if d = lineFeed then lineFeed :: translateNewlines rest'
        else lineFeed :: translateNewlines (d :: rest')
      | [] => [lineFeed]
    else c :: translateNewlines rest

/-- `str.splitlines` ends a line at each of these characters. -/
def isLineEnd (c : CodePoint) : Bool :=
  (0x0A ≤ c.val && c.val ≤ 0x0D) || (0x1C ≤ c.val && c.val ≤ 0x1E) || c.val = 0x85 ||
    c.val = 0x2028 || c.val = 0x2029

/-- `text.splitlines()` of a text without `\r\n`; `line` is the line so far. -/
def splitLinesFrom (line : PyStr) : PyStr → List PyStr
  | [] => if line = [] then [] else [line]
  | c :: rest => if isLineEnd c then line :: splitLinesFrom [] rest else splitLinesFrom (line ++ [c]) rest

def splitLines (text : PyStr) : List PyStr := splitLinesFrom [] text

/-- `pattern in line` -/
def contains (pattern : PyStr) : PyStr → Bool
  | [] => pattern = []
  | c :: rest => pattern.isPrefixOf (c :: rest) || contains pattern rest

/-- `"\n".join(lines)` -/
def joinLines : List PyStr → PyStr
  | [] => []
  | [line] => line
  | line :: rest => line ++ lineFeed :: joinLines rest

/-- The matching lines of one file, `path:number:line`, numbered from `n`. -/
def matchingLines (path pattern : PyStr) : ℕ → List PyStr → List PyStr
  | _, [] => []
  | n, line :: rest =>
    if contains pattern line then
      (path ++ py ":" ++ intText n ++ py ":" ++ line) :: matchingLines path pattern (n + 1) rest
    else matchingLines path pattern (n + 1) rest

/-- The matching lines of what is at a path; a file that cannot be read as text is skipped. -/
def entryLines (path pattern : PyStr) : Entry → List PyStr
  | .other => []
  | .unreadable => []
  | .file content =>
    match decodeUtf8 content with
    | none => []
    | some text => matchingLines path pattern 1 (splitLines (translateNewlines text))

/-! ### Execution -/

/-- `cancellation is not None and cancellation.cancelled` -/
def cancelled (token : Bool) : Act F Bool :=
  if token then Act.ask fun reply => .ok reply.cancelled else pure false

def timedOut : Act F Bool := Act.ask fun reply => .ok reply.timedOut

/-- The paths below the root, one after the other. -/
def searchPaths (token : Bool) (pattern : PyStr) : List PyStr → Act F (List PyStr)
  | [] => pure []
  | path :: rest => do
    if ← cancelled token then .raise (.runtime "cancelled_post_dispatch" "search cancelled")
    else if ← timedOut then .raise (.runtime "post_dispatch_timeout" "search timed out")
    else do
      let entry ← Act.ask fun reply => .ok reply.entry
      let lines ← searchPaths token pattern rest
      pure (entryLines path pattern entry ++ lines)

/-- `str(arguments[key])` -/
def argument (arguments : List (PyStr × Value F)) (key : String) : Except Raised PyStr :=
  match Items.lookup (py key) arguments with
  | none => .error (.builtin .keyError)
  | some value => .ok (strOf value)

/-- `_search`: the payload and the number of matching lines. -/
def searchText (token : Bool) (call : CompiledToolCall F) : Act F (List UInt8 × ℕ) := do
  let _ ← Act.lift (argument call.nativeArguments "root")
  let pattern ← Act.lift (argument call.nativeArguments "pattern")
  Act.note (.touching call.invocationId)
  let paths ← Act.ask Reply.paths
  let lines ← searchPaths token pattern paths
  let payload ← Act.lift (encode (joinLines lines))
  pure (payload, lines.length)

/-- What a tool reads, and its summary. -/
def runTool (token : Bool) (call : CompiledToolCall F) : Act F (List UInt8 × PyStr) :=
  if call.toolId = py "read_file" then do
    let _ ← Act.lift (argument call.nativeArguments "path")
    Act.note (.touching call.invocationId)
    let payload ← Act.ask Reply.content
    pure (payload, py "read " ++ intText payload.length ++ py " bytes")
  else if call.toolId = py "search_text" then do
    let (payload, count) ← searchText token call
    pure (payload, py "found " ++ intText count ++ py " matching lines")
  else .raise (.runtime "executor_unavailable" "tool is not executable")

/-- `execute`, of an executor with this `result_byte_cap` -/
def execute (resultByteCap : ℕ) (call : CompiledToolCall F) (token : Bool) :
    Act F RawToolResult := do
  let completed ← .read fun w => w.completed.get? call.idempotencyKey
  match completed with
  | some result => pure result
  | none =>
    if ← cancelled token then
      .raise (.runtime "cancelled_pre_dispatch" "tool was cancelled before dispatch")
    else do
      let (payload, summary) ← runTool token call
      if ← cancelled token then
        .raise (.runtime "cancelled_post_dispatch" "tool was cancelled after dispatch")
      else if ← timedOut then
        .raise (.runtime "post_dispatch_timeout" "tool timed out after dispatch")
      else do
        let result : RawToolResult :=
          { invocationId := call.invocationId
            status := .succeeded
            payload := payload.take resultByteCap
            summary
            sideEffectState := .none
            errorCode := none
            truncated := resultByteCap < payload.length }
        .modify fun w => { w with completed := w.completed.set call.idempotencyKey result }
        pure result

end Agent
