import V2x.CommandLine.Options
import V2x.Dissector.Dispatch
import V2x.Dissector.Registration
import V2x.Text.Blank
import V2x.Text.Quoted
import V2x.Tree.Render

/-!
# The command line

Forced grammars are taken up first. Then each message is dissected and printed, up to the first that
is not hexadecimal. What the library logs meanwhile appears on standard error between the lines of the
program.
-/

namespace V2x.CommandLine

/-- What the library may log on standard error while the program works. Whether it does, in which words and at
what time, is up to the environment. -/
inductive Activity
  /-- The tables of the dissector are filled. -/
  | build (d : Dissector)
  | force (messageId : UInt8) (grammar : String)
  | dissect (d : Dissector) (pdu : Octets)

/-- What follows one another on standard error. -/
inductive Entry
  | line (text : String)
  | logged (activity : Activity)

def Entry.text (log : Activity → String) : Entry → String
  | .line text => text
  | .logged activity => log activity

/-- What a run leaves behind, the words of the log apart. -/
structure Outcome where
  code : Nat
  stdout : String
  stderr : List Entry

structure Output where
  code : Nat
  stdout : String
  stderr : String
  deriving DecidableEq, Repr

/-- The output in an environment that logs in these words. -/
def Outcome.output (log : Activity → String) (o : Outcome) : Output :=
  ⟨o.code, o.stdout, String.join (o.stderr.map (Entry.text log))⟩

inductive Failure
  | malformedMapping (mapping : String)
  | messageId (error : Text.Numeral.Error)
  | refused (error : Refusal)
  | hex (error : Text.Hex.Error)
  | cannotListen
  deriving DecidableEq, Repr

/-- A failure as it is shown to someone who looks into it: plain messages are quoted, the others
name their kind. -/
def Failure.report : Failure → String
  | .malformedMapping mapping =>
    Text.Quoted.encode s!"expected <message id>=<grammar>, got '{mapping}'"
  | .messageId error =>
    let kind :=
      match error with
      | .empty => "Empty"
      | .invalidDigit => "InvalidDigit"
      | .overflow => "PosOverflow"
    "ParseIntError \x7b kind: " ++ kind ++ " \x7d"
  | .refused (.unknownGrammar name) => s!"UnknownGrammar({Text.Quoted.encode name})"
  | .refused (.duplicate table key) =>
    "Duplicate \x7b table: " ++ Text.Quoted.encode table ++ ", key: " ++ Text.Quoted.encode key ++
      " \x7d"
  | .hex error => Text.Quoted.encode error.message
  | .cannotListen => Text.Quoted.encode "listening for datagrams is not available"

/-- The message identifier and the grammar that a mapping such as `1=SSEM` stands for. -/
def readMapping (messages : Table UInt8) (mapping : String) : Except Failure (UInt8 × Grammar) :=
  match Text.splitFirst? '=' mapping with
  | none => .error (.malformedMapping mapping)
  | some (id, grammar) =>
    match Text.Numeral.parse 255 (Text.trim id) with
    | .error error => .error (.messageId error)
    | .ok id =>
      match messages.findByName? (Text.trim grammar) with
      | none => .error (.refused (.unknownGrammar (Text.trim grammar)))
      | some found => .ok (UInt8.ofNat id, found)

/-- What is read up to the first that is faulty. -/
def readAll {α β ε : Type} (read : α → Except ε β) : List α → List β × Option ε
  | [] => ([], none)
  | a :: more =>
    match read a with
    | .error error => ([], some error)
    | .ok b =>
      let (bs, error) := readAll read more
      (b :: bs, error)

def force (d : Dissector) (mappings : List (UInt8 × Grammar)) : Dissector :=
  mappings.foldl (fun d (id, grammar) => d.override id grammar) d

def overrideLine (o : Dissector.Override) : String :=
  let default := o.default.getD "(none)"
  s!"{promptFor o.messageId}: {default} -> {o.current}\n"

/-- The printed form of a dissection: the tree, which grammar was used, and an empty line. -/
def printed (d : Dissection) : String :=
  let grammar := d.grammar.getD "data"
  let remark :=
    match d.prompt? with
    | some prompt => s!"[{prompt} parsed as {grammar}]\n"
    | none => ""
  d.tree.render ++ remark ++ "\n"

/-- The lines of the input that hold a message: those that are neither empty nor a comment. -/
def inputPdus (input : String) : List String :=
  ((Text.lines input).map Text.trim).filter fun line => line ≠ "" ∧ !line.startsWith "#"

def failed (stdout : String) (stderr : List Entry) (failure : Failure) : Outcome :=
  ⟨1, stdout, stderr ++ [.line s!"Error: {failure.report}\n"]⟩

/-- What is on standard error when these grammars have been forced. -/
def preamble (d : Dissector) (forced : List (UInt8 × Grammar)) : List Entry :=
  .logged (.build d) :: forced.map fun (id, grammar) => .logged (.force id grammar.name)

/-- Dissects and prints messages up to the first that is not hexadecimal. -/
def dissectAll (d : Dissector) (stderr : List Entry) (texts : List String) : Outcome :=
  let (pdus, error) := readAll Text.Hex.decode texts
  let stdout := String.join (pdus.map fun pdu => printed (d.dispatch pdu))
  let stderr := stderr ++ pdus.map fun pdu => .logged (.dissect d pdu)
  match error with
  | none => ⟨0, stdout, stderr⟩
  | some error => failed stdout stderr (.hex error)

def Options.noRegion (o : Options) : NoRegion :=
  if o.attemptNoRegion then .attempt else .skip

def outcomeOf (o : Options) (input : String) : Outcome :=
  match Dissector.standard { noRegion := o.noRegion } with
  | .error refusal => failed "" [] (.refused refusal)
  | .ok d =>
    let (forced, failure) := readAll (readMapping d.messages) o.mappings
    match failure with
    | some failure => failed "" (preamble d forced) failure
    | none =>
      let d' := force d forced
      let stderr := preamble d forced ++ d'.overrideList.map fun o => .line (overrideLine o)
      if o.listen.isSome then failed "" stderr .cannotListen
      else dissectAll d' stderr (if o.pdus.isEmpty then inputPdus input else o.pdus)

/-- What a run comes to whose arguments are read by `parse`. -/
def outcome (parse : List String → Except Stop Options) (args : List String) (input : String) : Outcome :=
  match parse args with
  | .error .help => ⟨0, Options.usage, []⟩
  | .error (.misuse message) =>
    ⟨1, "", [.line s!"{message}\nRun its-dissect --help for more information.\n"]⟩
  | .ok o => outcomeOf o input

/-- The output where nothing is logged. -/
def run (args : List String) (input : String) : Output :=
  (outcome Options.parse args input).output fun _ => ""

def readsInput (args : List String) : Bool :=
  match Options.parse args with
  | .ok o => o.pdus.isEmpty ∧ o.listen.isNone
  | .error _ => false

end V2x.CommandLine
