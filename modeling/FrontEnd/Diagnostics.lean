import FrontEnd.Reading

/-!
# Diagnostics

The answer of a language server to an opened or edited document: the whole text is read anew, and
what is wrong with it is published with a range.
-/

namespace FrontEnd

/-- A place in a document, both numbers from zero. -/
structure Place where
  line : Nat
  character : Int
deriving DecidableEq

/-- How serious a diagnostic is; the numbers are those of the protocol of language servers. -/
inductive Severity where
  | error
deriving DecidableEq

def Severity.code : Severity → Nat
  | error => 1

/-- A complaint about a range of a document. -/
structure Diagnostic where
  start : Place
  stop : Place
  message : String
  severity : Severity
  origin : String
  code : String
deriving DecidableEq

/-- The diagnostics of one document. -/
structure Publication where
  uri : String
  diagnostics : List Diagnostic
deriving DecidableEq

/-- A document was opened or changed and now has this text. -/
inductive Edit where
  | opened (uri text : String)
  | changed (uri text : String)
deriving DecidableEq

namespace Edit

def uri : Edit → String
  | opened uri _ | changed uri _ => uri

def text : Edit → String
  | opened _ text | changed _ text => text

end Edit

def Stage.code : Stage → String
  | lexical => "lex"
  | syntactic => "parse"

/-- A report as a diagnostic. Its range starts at the position of the report and has its length,
whatever the end of the line. -/
def Report.diagnostic (r : Report) : Diagnostic :=
  let line := r.position.line - 1
  let column := r.position.column - 1
  { start := ⟨line, column⟩
    stop := ⟨line, column + r.length⟩
    message := r.message
    severity := .error
    origin := "plc"
    code := r.stage.code }

/-- What is published for an edit. A document with a numeral that is not supported gets no
answer. -/
def Edit.publication (e : Edit) : Except NumeralKind Publication :=
  match parse e.text with
  | .ok _ => .ok ⟨e.uri, []⟩
  | .error (.reported r) => .ok ⟨e.uri, [r.diagnostic]⟩
  | .error (.numeral kind) => .error kind

end FrontEnd
