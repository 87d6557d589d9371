import RecursiveDescent.Expression
import RecursiveDescent.MachineRun
import RecursiveDescent.Outcome.Accessor

/-!
# Sessions

A session builds up named rules and parses with them.  Three kinds of rules exist: a grammar, a
forward declaration that is defined later, and a memoized grammar whose memo table the session
can look at and clear.  Naming a rule hides an earlier rule of the same name without touching the
grammars that were built with it.  Memo tables live as long as the session.

`Session.perform` carries out one request.  A request that is refused leaves the rules as they
were, and the session goes on.  Parses run on a machine, so a parse without an outcome is one that
was given up there.
-/

namespace RecursiveDescent

variable {ε : Type}

/-- What a name of a session stands for. -/
inductive Binding (ε : Type) : Type 1 where
  /-- A grammar. -/
  | grammar (grammar : Grammar ε Value)
  /-- A forward declaration, by the number of its rule. -/
  | forward (index : Nat)
  /-- A memoized grammar and the cell of its table. -/
  | memoized (cell : Nat) (inner : Grammar ε Value)

/-- The grammar that a reference to the name denotes. -/
def Binding.denoted : Binding ε → Grammar ε Value
  | .grammar named => named
  | .forward index => .rule index
  | .memoized cell inner => .memoized cell inner

/-- Named rules with their numbers, and the state of the parsers. -/
structure Session (ε : Type) : Type 1 where
  bindings : List (String × Binding ε) := []
  numbering : Numbering ε := {}
  state : ParserState Value := .initial

/-- What a user asks of a session. -/
inductive Request (ε : Type) : Type 1 where
  /-- Names a grammar. -/
  | name (name : String) (expression : Expression ε)
  /-- Names a forward declaration. -/
  | declare (name : String)
  /-- Names a grammar that is to be memoized. -/
  | memoize (name : String) (expression : Expression ε)
  /-- Defines a forward declaration. -/
  | define (name : String) (expression : Expression ε)
  /-- Whether a forward declaration has a definition. -/
  | isDefined (name : String)
  /-- Parses a source from a position on. -/
  | parse (expression : Expression ε) (source : Array ε) (start : Nat)
  /-- Parses a whole source. -/
  | parseComplete (expression : Expression ε) (source : Array ε)
  /-- Parses with a memoized grammar past its own table. -/
  | parseInner (name : String) (source : Array ε) (start : Nat)
  /-- Empties the table of a memoized grammar. -/
  | clear (name : String)
  /-- The statistics of a memoized grammar's table. -/
  | statistics (name : String)
  /-- A memoized grammar's table written out as a term. -/
  | inspect (name : String)
  /-- Parses a source and asks the outcome for one of its parts. -/
  | access (expression : Expression ε) (source : Array ε) (accessor : OutcomeAccessor)

/-- Why a request has no answer. -/
inductive SessionError where
  /-- The interface was misused. -/
  | misuse (error : MisuseError)
  /-- A name stands for no rule, or for a rule of another kind than the request needs. -/
  | unsuitableName (name : String)
  /-- The parse was given up: a sum exceeded a word, or the steps allotted to it ran out. -/
  | unfinished

/-- An answer or the reason why there is none. -/
abbrev Reply : Type :=
  Except SessionError Answer

namespace SessionError

/-- The error of a request for which an expression could not be resolved. -/
def ofResolution : ResolutionError → SessionError
  | .misuse error => .misuse error
  | .unknownName name => .unsuitableName name

end SessionError

namespace Session

/-- What the names of a session stand for. -/
def scope (session : Session ε) : Scope ε :=
  session.bindings.map fun binding => (binding.1, binding.2.denoted)

/-- Gives a name a meaning, which hides an earlier one. -/
def bind (session : Session ε) (name : String) (binding : Binding ε) : Session ε :=
  { session with bindings := (name, binding) :: session.bindings }

/-- Resolves an expression and goes on with the grammar that it denotes. -/
def withGrammar (session : Session ε) (expression : Expression ε)
    (next : Grammar ε Value → Session ε → Session ε × Reply) : Session ε × Reply :=
  match expression.resolve session.scope session.numbering with
  | .ok (grammar, numbering) => next grammar { session with numbering := numbering }
  | .error error => (session, .error (.ofResolution error))

/-- Goes on with the memo cell and the grammar of a memoized rule. -/
def withMemoized (session : Session ε) (name : String)
    (next : Nat → Grammar ε Value → Session ε × Reply) : Session ε × Reply :=
  match session.bindings.lookup name with
  | some (.memoized cell inner) => next cell inner
  | _ => (session, .error (.unsuitableName name))

/-- Goes on with the rule number of a forward declaration. -/
def withForward (session : Session ε) (name : String) (next : Nat → Session ε × Reply) :
    Session ε × Reply :=
  match session.bindings.lookup name with
  | some (.forward index) => next index
  | _ => (session, .error (.unsuitableName name))

/-- Lets an attempt act on the state of the session, and words its result as a reply. -/
def attempt {α : Type} (session : Session ε) (attempted : Attempt (ParserState Value) α)
    (reply : α → Reply) : Session ε × Reply :=
  match attempted session.state with
  | some (result, state) => ({ session with state := state }, reply result)
  | none => (session, .error .unfinished)

variable [DecidableEq ε]

def perform (session : Session ε) : Request ε → Session ε × Reply
  | .name name expression =>
    session.withGrammar expression fun grammar session =>
      (session.bind name (.grammar grammar), .ok .done)
  | .declare name =>
    let index := session.numbering.rules.size
    let session := { session with numbering := session.numbering.addRule }
    (session.bind name (.forward index), .ok .done)
  | .memoize name expression =>
    session.withGrammar expression fun inner session =>
      let cell := session.numbering.cells
      let session := { session with numbering := session.numbering.addCell }
      (session.bind name (.memoized cell inner), .ok .done)
  | .define name expression =>
    session.withForward name fun index =>
      session.withGrammar expression fun grammar session =>
        match session.numbering.rules.define index grammar with
        | .ok rules =>
          ({ session with numbering := { session.numbering with rules := rules } }, .ok .done)
        | .error error => (session, .error (.misuse error))
  | .isDefined name =>
    session.withForward name fun index =>
      (session, .ok (.truth (session.numbering.rules.isDefined index)))
  | .parse expression source start =>
    session.withGrammar expression fun grammar session =>
      session.attempt (grammar.parseOnMachine session.numbering.rules source start) fun outcome =>
        .ok (.outcome outcome)
  | .parseComplete expression source =>
    session.withGrammar expression fun grammar session =>
      session.attempt (grammar.parseCompleteOnMachine session.numbering.rules source) fun value? =>
        .ok (.value (Value.ofOption value?))
  | .parseInner name source start =>
    session.withMemoized name fun _ inner =>
      session.attempt (inner.parseOnMachine session.numbering.rules source start) fun outcome =>
        .ok (.outcome outcome)
  | .clear name =>
    session.withMemoized name fun cell _ =>
      ({ session with state := session.state.clearTable cell }, .ok .done)
  | .statistics name =>
    session.withMemoized name fun cell _ =>
      (session, .ok (.statistics (session.state.table cell).statistics))
  | .inspect name =>
    session.withMemoized name fun cell _ =>
      (session, .ok (.text (session.state.table cell).inspect))
  | .access expression source accessor =>
    session.withGrammar expression fun grammar session =>
      session.attempt (grammar.parseOnMachine session.numbering.rules source 0) fun outcome =>
        (accessor.answer outcome).mapError SessionError.misuse

/-- The reply to a request, with the events that happened meanwhile. -/
structure Report where
  reply : Reply
  events : List (Event Value)

/-- Carries out a request and takes the events of it out of the journal. -/
def report (session : Session ε) (request : Request ε) : Session ε × Report :=
  let (session, reply) := session.perform request
  ({ session with state := session.state.withoutEvents }, ⟨reply, session.state.events⟩)

def reports (session : Session ε) : List (Request ε) → List Report
  | [] => []
  | request :: requests =>
    let (session, report) := session.report request
    report :: session.reports requests

end Session

end RecursiveDescent
