import Mathlib
import Stencil.Format.Graph
import Stencil.Proofs.Numerals

/-!
# Reading DOT

A reader of the part of the DOT language in which every statement ends in a semicolon, and what it
reads in the text of a graph.

Characters make tokens: words, quoted text in which a backslash takes the next character as it is,
arrows and symbols, with comments left out. Tokens make statements, which stand in blocks. Both
steps go from left to right and are folds, so that what a line says does not depend on the lines
around it (`Says`). The reader knows no lines, so it does not matter what is quoted, line ends
included.

The text of a solution's graph says its nodes and its edges, each once and in order, and nothing
else (`Graph.read_dot`).

The statement about the whole text is put together from statements about its lines. `Lexes` says
that a text is read as certain tokens, whatever was read before; `Makes` says the same of tokens and
statements; `Says` joins the two. Each kind of line has one lemma (`says_node`, `says_edge`,
`says_tie`, `says_label`), and lists of lines say what their lines say (`says_map`, `says_flatMap`).

The names of nodes are words with a number at their end, and no word with a digit in it is a keyword
of the language (`isName_numbered`). Labels are the names and texts of the solution and may hold
anything; that is what quoting is for (`lexes_quoted`).
-/

namespace Stencil.Dot

/-! ## Tokens -/

inductive Token where
  | word (text : String)
  | quoted (text : String)
  | arrow
  | symbol (c : Char)
  deriving DecidableEq

/-- What the characters before are part of; they are kept with the last one first. -/
inductive Mode where
  | blank
  | word (cs : List Char)
  | quoted (cs : List Char)
  | escaped (cs : List Char)
  | dash
  | slash
  | comment
  | stuck
  deriving DecidableEq

/-- The tokens so far, the last one first. -/
structure Lexer where
  mode : Mode
  tokens : List Token
  deriving DecidableEq

namespace Lexer

/-- A character that follows a whole token. -/
def begin (tokens : List Token) (c : Char) : Lexer :=
  if isLetterOrDigit c then ⟨.word [c], tokens⟩
  else if c ∈ [' ', '\t', '\r', '\n'] then ⟨.blank, tokens⟩
  else if c = '"' then ⟨.quoted [], tokens⟩
  else if c = '-' then ⟨.dash, tokens⟩
  else if c = '/' then ⟨.slash, tokens⟩
  else if c ∈ ['\x7b', '\x7d', '[', ']', '=', ',', ';'] then ⟨.blank, .symbol c :: tokens⟩
  else ⟨.stuck, tokens⟩

def step (l : Lexer) (c : Char) : Lexer :=
  match l.mode with
  | .blank => begin l.tokens c
  | .word cs =>
    if isLetterOrDigit c then ⟨.word (c :: cs), l.tokens⟩
    else begin (.word (String.ofList cs.reverse) :: l.tokens) c
  | .quoted cs =>
    if c = '\\' then ⟨.escaped cs, l.tokens⟩
    else if c = '"' then ⟨.blank, .quoted (String.ofList cs.reverse) :: l.tokens⟩
    else ⟨.quoted (c :: cs), l.tokens⟩
  | .escaped cs => ⟨.quoted (c :: cs), l.tokens⟩
  | .dash => if c = '>' then ⟨.blank, .arrow :: l.tokens⟩ else ⟨.stuck, l.tokens⟩
  | .slash => if c = '/' then ⟨.comment, l.tokens⟩ else ⟨.stuck, l.tokens⟩
  | .comment => if c = '\n' then ⟨.blank, l.tokens⟩ else l
  | .stuck => l

end Lexer

/-- The tokens of a text. There are none if it ends within one, or has a character that is part of
    none. -/
def lex (text : String) : Option (List Token) :=
  let l := (text.toList ++ ['\n']).foldl Lexer.step ⟨.blank, []⟩
  if l.mode = .blank then some l.tokens.reverse else none

/-! ## Statements -/

abbrev Attributes := List (String × String)

inductive Statement where
  | setting (key value : String)
  | default (kind : String) (attributes : Attributes)
  | node (name : String) (attributes : Attributes)
  | edge (source target : String) (attributes : Attributes)
  deriving DecidableEq

/-- A word that names nothing, in capital or small letters. -/
def isKeyword (text : String) : Bool :=
  ["node", "edge", "graph", "digraph", "subgraph", "strict"].any fun word =>
    word.toList == text.toList.map Char.toLower

/-- The name that a token gives. -/
def Token.name? : Token → Option String
  | word text => if isKeyword text then none else some text
  | quoted text => some text
  | _ => none

/-- Attributes, from behind the opening bracket on. -/
def attributes? : List Token → Option Attributes
  | [key, .symbol '=', value, .symbol ']'] => do some [(← key.name?, ← value.name?)]
  | key :: .symbol '=' :: value :: .symbol ',' :: rest => do
    some ((← key.name?, ← value.name?) :: (← attributes? rest))
  | _ => none

/-- The statement that tokens make. -/
def statement? : List Token → Option Statement
  | [key, .symbol '=', value] => do some (.setting (← key.name?) (← value.name?))
  | [source, .arrow, target] => do some (.edge (← source.name?) (← target.name?) [])
  | source :: .arrow :: target :: .symbol '[' :: rest => do
    some (.edge (← source.name?) (← target.name?) (← attributes? rest))
  | token :: .symbol '[' :: rest => do
    if token = .word "node" then some (.default "node" (← attributes? rest))
    else if token = .word "edge" then some (.default "edge" (← attributes? rest))
    else some (.node (← token.name?) (← attributes? rest))
  | _ => none

/-- The name of the block that tokens open, within the given blocks. -/
def header? : List String → List Token → Option String
  | [], [.word keyword, token] => if keyword = "digraph" then token.name? else none
  | _ :: _, [.word keyword, token] => if keyword = "subgraph" then token.name? else none
  | _, _ => none

/-- Statements with the blocks that they stand in, from the inside out. -/
abbrev Document := List (List String × Statement)

/-- The tokens of the statement at hand, the blocks that are open and the statements so far, with
    the last one first in each. -/
structure Reading where
  pending : List Token
  blocks : List String
  statements : Document
  deriving DecidableEq

def Reading.step (r : Reading) : Token → Option Reading
  | .symbol ';' => do
    let statement ← statement? r.pending.reverse
    some ⟨[], r.blocks, (r.blocks, statement) :: r.statements⟩
  | .symbol '\x7b' => do
    let name ← header? r.blocks r.pending.reverse
    some ⟨[], name :: r.blocks, r.statements⟩
  | .symbol '\x7d' => if r.pending = [] then some { r with blocks := r.blocks.tail } else none
  | token => some { r with pending := token :: r.pending }

/-- The statements of a text, unless it is none of the language. -/
def read (text : String) : Option Document := do
  let tokens ← lex text
  let r ← tokens.foldlM Reading.step ⟨[], [], []⟩
  if r.pending = [] ∧ r.blocks = [] then some r.statements.reverse else none

/-! ## What pieces of text say -/

/-- The text is of the given tokens. -/
def Lexes (text : String) (ts : List Token) : Prop :=
  ∀ before, text.toList.foldl Lexer.step ⟨.blank, before⟩ = ⟨.blank, ts.reverse ++ before⟩

/-- Texts that are read as tokens on their own are read as these tokens one after the other. -/
theorem Lexes.append {text text' : String} {ts ts' : List Token} (h : Lexes text ts)
    (h' : Lexes text' ts') : Lexes (text ++ text') (ts ++ ts') := by
  intro before
  rw [String.toList_append, List.foldl_append, h, h', List.reverse_append, List.append_assoc]

/-- Text that is a word. -/
def isWord (text : String) : Bool := text.toList != [] && text.toList.all isLetterOrDigit

/-- Text that does not go on with a word. -/
def stopsWord (text : String) : Bool := !text.toList.head?.all isLetterOrDigit

/-- The letters and digits of a word are gathered, and no token is made before the word ends. -/
theorem foldl_word (cs : List Char) (hcs : ∀ c ∈ cs, isLetterOrDigit c = true) :
    ∀ (before : List Char) (ts : List Token),
      cs.foldl Lexer.step ⟨.word before, ts⟩ = ⟨.word (cs.reverse ++ before), ts⟩ := by
  induction cs with
  | nil => intro before ts; rfl
  | cons c cs ih =>
    intro before ts
    have hstep : Lexer.step ⟨.word before, ts⟩ c = ⟨.word (c :: before), ts⟩ := by
      show (if isLetterOrDigit c then _ else _) = _
      rw [if_pos (hcs c List.mem_cons_self)]
    rw [List.foldl_cons, hstep, ih fun d hd => hcs d (List.mem_cons_of_mem c hd)]
    simp

/-- A word before a text that cannot extend it is a token of its own. -/
theorem Lexes.word {w rest : String} {ts : List Token} (h : Lexes rest ts) (hw : isWord w = true)
    (hrest : stopsWord rest = true) : Lexes (w ++ rest) (.word w :: ts) := by
  intro before
  rw [String.toList_append, List.foldl_append]
  obtain ⟨hne, hall⟩ : w.toList ≠ [] ∧ ∀ c ∈ w.toList, isLetterOrDigit c = true := by
    simpa [isWord] using hw
  obtain ⟨c, cs, hcs⟩ := List.exists_cons_of_ne_nil hne
  have hword : w.toList.foldl Lexer.step ⟨.blank, before⟩ = ⟨.word w.toList.reverse, before⟩ := by
    rw [hcs] at hall ⊢
    have hbegin : Lexer.step ⟨.blank, before⟩ c = ⟨.word [c], before⟩ := by
      show Lexer.begin before c = _
      rw [Lexer.begin, if_pos (hall c List.mem_cons_self)]
    rw [List.foldl_cons, hbegin, foldl_word cs fun d hd => hall d (List.mem_cons_of_mem c hd)]
    simp
  rw [hword]
  cases hr : rest.toList with
  | nil => rw [stopsWord, hr] at hrest; exact absurd hrest (by simp)
  | cons d ds =>
    -- the word ends at the next character, which is read as if nothing was before it
    have hd : isLetterOrDigit d = false := by simpa [stopsWord, hr] using hrest
    have hstep : Lexer.step ⟨.word w.toList.reverse, before⟩ d
        = Lexer.step ⟨.blank, .word w :: before⟩ d := by
      show (if isLetterOrDigit d then _ else _) = Lexer.begin (.word w :: before) d
      rw [hd, List.reverse_reverse, String.ofList_toList]
      rfl
    have hrest := h (.word w :: before)
    rw [hr, List.foldl_cons] at hrest
    rw [List.foldl_cons, hstep, hrest]
    simp

/-- Between quotes an escaped text is read as the text: each character comes back as itself, and
    none of them ends the quotes. -/
theorem foldl_escape (cs : List Char) :
    ∀ (before : List Char) (ts : List Token),
      (Graph.escape (String.ofList cs)).toList.foldl Lexer.step ⟨.quoted before, ts⟩
        = ⟨.quoted (cs.reverse ++ before), ts⟩ := by
  induction cs with
  | nil => intro before ts; simp [Graph.escape]
  | cons c cs ih =>
    intro before ts
    have hcons : (Graph.escape (String.ofList (c :: cs))).toList
        = (if c = '\\' then "\\\\" else if c = '"' then "\\\"" else String.singleton c).toList
          ++ (Graph.escape (String.ofList cs)).toList := by
      simp [Graph.escape, String.join_cons]
    -- a character comes back from what is written for it, be it one character or two
    have hchar : (if c = '\\' then "\\\\" else if c = '"' then "\\\"" else
        String.singleton c).toList.foldl Lexer.step ⟨.quoted before, ts⟩
          = ⟨.quoted (c :: before), ts⟩ := by
      by_cases hslash : c = '\\'
      · rw [if_pos hslash, hslash]
        rfl
      · rw [if_neg hslash]
        by_cases hquote : c = '"'
        · rw [if_pos hquote, hquote]
          rfl
        · rw [if_neg hquote]
          simp [Lexer.step, hslash, hquote]
    rw [hcons, List.foldl_append, hchar, ih]
    simp

/-- **Any text can be quoted.** Between quotes it is one token, worth the text as it was before it
    was escaped. -/
theorem lexes_quoted (text : String) : Lexes ("\"" ++ Graph.escape text ++ "\"") [.quoted text] := by
  intro before
  rw [String.toList_append, String.toList_append, List.foldl_append, List.foldl_append]
  have hopen : "\"".toList.foldl Lexer.step ⟨.blank, before⟩ = ⟨.quoted [], before⟩ := rfl
  have htext := foldl_escape text.toList [] before
  rw [String.ofList_toList, List.append_nil] at htext
  rw [hopen, htext]
  show (⟨.blank, .quoted (String.ofList text.toList.reverse.reverse) :: before⟩ : Lexer) = _
  rw [List.reverse_reverse, String.ofList_toList]
  rfl

/-- In the given blocks the tokens make the given statements. -/
def Makes (blocks : List String) (ts : List Token) (statements : Document) : Prop :=
  ∀ before, ts.foldlM Reading.step ⟨[], blocks, before⟩
    = some ⟨[], blocks, statements.reverse ++ before⟩

/-- In the given blocks the text says the given statements. -/
def Says (blocks : List String) (text : String) (statements : Document) : Prop :=
  ∃ ts, Lexes text ts ∧ Makes blocks ts statements

variable {blocks : List String}

/-- Tokens that make whole statements can be followed by tokens that do. -/
theorem Makes.append {ts ts' : List Token} {ss ss' : Document} (h : Makes blocks ts ss)
    (h' : Makes blocks ts' ss') : Makes blocks (ts ++ ts') (ss ++ ss') := by
  intro before
  rw [List.foldlM_append, h]
  show ts'.foldlM Reading.step _ = _
  rw [h', List.reverse_append, List.append_assoc]

theorem Says.append {text text' : String} {ss ss' : Document} (h : Says blocks text ss)
    (h' : Says blocks text' ss') : Says blocks (text ++ text') (ss ++ ss') := by
  obtain ⟨ts, hlex, hmake⟩ := h
  obtain ⟨ts', hlex', hmake'⟩ := h'
  exact ⟨ts ++ ts', hlex.append hlex', hmake.append hmake'⟩

/-- Text that is read as no tokens says nothing. -/
theorem says_nil {text : String} (h : Lexes text []) : Says blocks text [] :=
  ⟨[], h, fun _ => rfl⟩

/-- A token that neither ends a statement nor opens or closes a block. -/
def Token.isInner : Token → Bool
  | symbol c => c != ';' && c != '\x7b' && c != '\x7d'
  | _ => true

theorem step_inner {t : Token} (h : t.isInner = true) (r : Reading) :
    r.step t = some { r with pending := t :: r.pending } := by
  cases t with
  | symbol c =>
    obtain ⟨⟨hend, hopen⟩, hclose⟩ : (c ≠ ';' ∧ c ≠ '\x7b') ∧ c ≠ '\x7d' := by
      simpa [Token.isInner] using h
    rw [Reading.step]
    · exact fun he => hend (Token.symbol.inj he)
    · exact fun he => hopen (Token.symbol.inj he)
    · exact fun he => hclose (Token.symbol.inj he)
  | word text => rfl
  | quoted text => rfl
  | arrow => rfl

/-- Tokens are kept until their statement or their header ends. -/
theorem foldlM_inner {ts : List Token} (h : ts.all Token.isInner = true) :
    ∀ r : Reading, ts.foldlM Reading.step r = some { r with pending := ts.reverse ++ r.pending } := by
  induction ts with
  | nil => intro r; rfl
  | cons t ts ih =>
    intro r
    obtain ⟨ht, hts⟩ : t.isInner = true ∧ ts.all Token.isInner = true := by simpa using h
    rw [List.foldlM_cons, step_inner ht]
    show ts.foldlM Reading.step _ = _
    rw [ih hts]
    simp

theorem makes_statement {ts : List Token} {statement : Statement}
    (hts : ts.all Token.isInner = true) (h : statement? ts = some statement) :
    Makes blocks (ts ++ [.symbol ';']) [(blocks, statement)] := by
  intro before
  rw [List.foldlM_append, foldlM_inner hts]
  show (do
    let statement ← statement? (ts.reverse ++ []).reverse
    some (⟨[], blocks, (blocks, statement) :: before⟩ : Reading)) >>= _ = _
  rw [List.append_nil, List.reverse_reverse, h]
  rfl

/-- A block says what stands in it, with its name in front of the blocks around it. -/
theorem Makes.block {outer name : String} {ts : List Token} {ss : Document}
    (h : Makes (name :: outer :: blocks) ts ss) (hname : (Token.word name).name? = some name) :
    Makes (outer :: blocks)
      ([.word "subgraph", .word name, .symbol '\x7b'] ++ ts ++ [.symbol '\x7d']) ss := by
  intro before
  have hopen : [Token.word "subgraph", .word name, .symbol '\x7b'].foldlM Reading.step
      ⟨[], outer :: blocks, before⟩ = some ⟨[], name :: outer :: blocks, before⟩ := by
    show (do
      let name ← (Token.word name).name?
      some (⟨[], name :: outer :: blocks, before⟩ : Reading)) >>= _ = _
    rw [hname]
    rfl
  rw [List.foldlM_append, List.foldlM_append, hopen]
  show (ts.foldlM Reading.step _) >>= _ = _
  rw [h]
  rfl

theorem lex_eq_some {text : String} {ts : List Token} (h : Lexes text ts) : lex text = some ts := by
  have hend : (text.toList ++ ['\n']).foldl Lexer.step ⟨.blank, []⟩ = ⟨.blank, ts.reverse⟩ := by
    rw [List.foldl_append, h, List.append_nil]
    rfl
  rw [lex, hend]
  simp

/-- A text that says a document is read as that document. -/
theorem read_eq_some {name body : String} {ss : Document} (h : Says [name] body ss) :
    read ("digraph \"" ++ Graph.escape name ++ "\" \x7b" ++ "\n" ++ body ++ "\x7d\n") = some ss := by
  obtain ⟨ts, hlex, hmakes⟩ := h
  have hopen : Lexes "digraph " [.word "digraph"] := fun _ => rfl
  have hbegin : Lexes " \x7b\n" [.symbol '\x7b'] := fun _ => rfl
  have hend : Lexes "\x7d\n" [.symbol '\x7d'] := fun _ => rfl
  have htext := hopen.append ((lexes_quoted name).append (hbegin.append (hlex.append hend)))
  rw [show "digraph \"" ++ Graph.escape name ++ "\" \x7b" ++ "\n" ++ body ++ "\x7d\n"
    = "digraph " ++ (("\"" ++ Graph.escape name ++ "\"") ++ (" \x7b\n" ++ (body ++ "\x7d\n")))
      from by rw [← String.toList_inj]; simp, read, lex_eq_some htext]
  show ((ts ++ [Token.symbol '\x7d']).foldlM Reading.step ⟨[], [name], []⟩) >>= _ = _
  rw [List.foldlM_append, hmakes]
  show some (ss.reverse ++ []).reverse = some ss
  rw [List.append_nil, List.reverse_reverse]

/-! ## Statements about names -/

/-- A name that is written without quotes. -/
def isName (text : String) : Bool := isWord text && !isKeyword text

theorem name?_word {text : String} (h : isName text = true) :
    (Token.word text).name? = some text := by
  have hkey : isKeyword text = false := by
    have hboth : isWord text = true ∧ isKeyword text = false := by simpa [isName] using h
    exact hboth.2
  rw [Token.name?, hkey]
  rfl

theorem isWord_of_isName {text : String} (h : isName text = true) : isWord text = true := by
  rw [isName, Bool.and_eq_true] at h
  exact h.1

/-- How a node is drawn. -/
def drawn (shape color label : String) : Attributes :=
  [("shape", shape), ("style", "filled"), ("fillcolor", color), ("label", label)]

/-- The tokens that declare a node. -/
def nodeTokens (name shape color label : String) : List Token :=
  [.word name, .symbol '[', .word "shape", .symbol '=', .word shape, .symbol ',', .word "style",
    .symbol '=', .word "filled", .symbol ',', .word "fillcolor", .symbol '=', .word color,
    .symbol ',', .word "label", .symbol '=', .quoted label, .symbol ']']

theorem statement?_nodeTokens {name shape color : String} (label : String)
    (hname : isName name = true) (hshape : isName shape = true) (hcolor : isName color = true) :
    statement? (nodeTokens name shape color label)
      = some (.node name (drawn shape color label)) := by
  have hnode : Token.word name ≠ .word "node" := by
    intro he
    rw [Token.word.inj he] at hname
    exact absurd hname (by decide)
  have hedge : Token.word name ≠ .word "edge" := by
    intro he
    rw [Token.word.inj he] at hname
    exact absurd hname (by decide)
  have hattributes : attributes? [.word "shape", .symbol '=', .word shape, .symbol ',',
      .word "style", .symbol '=', .word "filled", .symbol ',', .word "fillcolor", .symbol '=',
      .word color, .symbol ',', .word "label", .symbol '=', .quoted label, .symbol ']']
        = some (drawn shape color label) := by
    simp only [attributes?, name?_word hshape, name?_word hcolor]
    rfl
  show (if Token.word name = .word "node" then _ else if Token.word name = .word "edge" then _ else _)
    = _
  rw [if_neg hnode, if_neg hedge, name?_word hname, hattributes]
  rfl

/-- A node, with its shape, its colour and its label. -/
theorem says_node {indent name shape color : String} (label : String) (hindent : Lexes indent [])
    (hname : isName name = true) (hshape : isName shape = true) (hcolor : isName color = true) :
    Says blocks
      (indent ++ name ++ " [" ++ Graph.attributes shape color label ++ "];" ++ "\n")
      [(blocks, .node name (drawn shape color label))] := by
  refine ⟨nodeTokens name shape color label ++ [.symbol ';'], ?_,
    makes_statement rfl (statement?_nodeTokens label hname hshape hcolor)⟩
  have hopen : Lexes " [shape=" [.symbol '[', .word "shape", .symbol '='] := fun _ => rfl
  have hstyle : Lexes ", style=filled, fillcolor=" [.symbol ',', .word "style", .symbol '=',
    .word "filled", .symbol ',', .word "fillcolor", .symbol '='] := fun _ => rfl
  have hlabel : Lexes ", label=" [.symbol ',', .word "label", .symbol '='] := fun _ => rfl
  have hend : Lexes "];\n" [.symbol ']', .symbol ';'] := fun _ => rfl
  -- from the end of the line to its start
  have h₁ := (hlabel.append ((lexes_quoted label).append hend)).word (isWord_of_isName hcolor)
    (by simp [stopsWord]; decide)
  have h₂ := (hstyle.append h₁).word (isWord_of_isName hshape) (by simp [stopsWord]; decide)
  have h₃ := (hopen.append h₂).word (isWord_of_isName hname) (by simp [stopsWord]; decide)
  rw [show indent ++ name ++ " [" ++ Graph.attributes shape color label ++ "];" ++ "\n"
    = indent ++ (name ++ (" [shape=" ++ (shape ++ (", style=filled, fillcolor=" ++ (color
      ++ (", label=" ++ ("\"" ++ Graph.escape label ++ "\"" ++ "];\n"))))))) from by
        rw [Graph.attributes, ← String.toList_inj]; simp]
  exact hindent.append h₃

theorem lexes_edge {source target tail : String} {ts : List Token} (hsource : isName source = true)
    (htarget : isName target = true) (htail : Lexes tail ts) (hstops : stopsWord tail = true) :
    Lexes ("    " ++ (source ++ (" -> " ++ (target ++ tail))))
      ([.word source, .arrow, .word target] ++ ts) := by
  have hindent : Lexes "    " [] := fun _ => rfl
  have harrow : Lexes " -> " [.arrow] := fun _ => rfl
  have h := (harrow.append (htail.word (isWord_of_isName htarget) hstops)).word
    (isWord_of_isName hsource) (by simp [stopsWord]; decide)
  exact hindent.append h

/-- An edge between two nodes, drawn as a solid arrow. -/
theorem says_edge {source target : String} (hsource : isName source = true)
    (htarget : isName target = true) :
    Says blocks ("    " ++ source ++ " -> " ++ target ++ ";" ++ "\n")
      [(blocks, .edge source target [])] := by
  refine ⟨[.word source, .arrow, .word target] ++ [.symbol ';'], ?_, makes_statement rfl ?_⟩
  · rw [show "    " ++ source ++ " -> " ++ target ++ ";" ++ "\n"
      = "    " ++ (source ++ (" -> " ++ (target ++ ";\n"))) from by rw [← String.toList_inj]; simp]
    exact lexes_edge hsource htarget (fun _ => rfl) rfl
  · simp only [statement?, name?_word hsource, name?_word htarget]
    rfl

/-- How the tie of a point to its grid is drawn. -/
def dashed : Attributes := [("style", "dashed"), ("arrowhead", "none"), ("color", "gray60")]

/-- A tie of a point to its grid, drawn as a dashed line without a head. -/
theorem says_tie {source target : String} (hsource : isName source = true)
    (htarget : isName target = true) :
    Says blocks ("    " ++ source ++ " -> " ++ target
      ++ " [style=dashed, arrowhead=none, color=gray60];" ++ "\n")
      [(blocks, .edge source target dashed)] := by
  refine ⟨[.word source, .arrow, .word target, .symbol '[', .word "style", .symbol '=',
    .word "dashed", .symbol ',', .word "arrowhead", .symbol '=', .word "none", .symbol ',',
    .word "color", .symbol '=', .word "gray60", .symbol ']'] ++ [.symbol ';'], ?_,
    makes_statement rfl ?_⟩
  · rw [show "    " ++ source ++ " -> " ++ target
        ++ " [style=dashed, arrowhead=none, color=gray60];" ++ "\n"
      = "    " ++ (source ++ (" -> " ++ (target
        ++ " [style=dashed, arrowhead=none, color=gray60];\n"))) from by
          rw [← String.toList_inj]; simp]
    exact lexes_edge hsource htarget (fun _ => rfl) rfl
  · simp only [statement?, name?_word hsource, name?_word htarget]
    rfl

/-- The label of a block, which can be any text. -/
theorem says_label (text : String) :
    Says blocks ("        label=\"" ++ Graph.escape text ++ "\";" ++ "\n")
      [(blocks, .setting "label" text)] := by
  refine ⟨[.word "label", .symbol '=', .quoted text] ++ [.symbol ';'], ?_, makes_statement rfl rfl⟩
  have hlabel : Lexes "        label=" [.word "label", .symbol '='] := fun _ => rfl
  have hend : Lexes ";\n" [.symbol ';'] := fun _ => rfl
  rw [show "        label=\"" ++ Graph.escape text ++ "\";" ++ "\n"
    = "        label=" ++ (("\"" ++ Graph.escape text ++ "\"") ++ ";\n") from by
      rw [← String.toList_inj]; simp]
  exact hlabel.append ((lexes_quoted text).append hend)

/-! ## Names -/

/-- A word with a character that is no letter is a name. -/
theorem isKeyword_eq_false {text : String} {c : Char} (hc : c ∈ text.toList)
    (hlower : c.toLower.isLower = false) : isKeyword text = false := by
  rw [Bool.eq_false_iff]
  intro hkey
  obtain ⟨word, hword, heq⟩ := List.any_eq_true.mp hkey
  have hletters : (["node", "edge", "graph", "digraph", "subgraph", "strict"].all fun word =>
      word.toList.all Char.isLower) = true := by decide
  have hmem : c.toLower ∈ word.toList := by
    rw [eq_of_beq heq]
    exact List.mem_map_of_mem hc
  have hall := List.all_eq_true.mp hletters word hword
  rw [List.all_eq_true.mp hall _ hmem] at hlower
  exact absurd hlower (by decide)

/-- A word is a name if it has a character that no keyword has. -/
theorem isName_of {text : String} {c : Char} (hword : isWord text = true) (hc : c ∈ text.toList)
    (hlower : c.toLower.isLower = false) : isName text = true := by
  rw [isName, hword, isKeyword_eq_false hc hlower]
  rfl

theorem isLower_toLower_digit {c : Char} (h : isDigit c = true) : c.toLower.isLower = false := by
  obtain ⟨hlow, hhigh⟩ : '0' ≤ c ∧ c ≤ '9' := by simpa [isDigit] using h
  have hle : c.val.toNat ≤ 57 := hhigh
  have hsame : c.toLower = c := by
    rw [Char.toLower, dif_neg]
    rintro ⟨hA, _⟩
    have hge : 65 ≤ c.val.toNat := hA
    omega
  rw [hsame, Bool.eq_false_iff]
  intro hlower
  have hge : 97 ≤ c.val.toNat := by
    have hboth : 'a'.val ≤ c.val ∧ c.val ≤ 'z'.val := by simpa [Char.isLower] using hlower
    exact hboth.1
  omega

/-- A word that ends in a number is a name: keywords have no digits. -/
theorem isName_numbered {word : String} (hword : word.toList.all isLetterOrDigit = true) (n : Nat) :
    isName (word ++ toString n) = true := by
  have htext : (word ++ toString n).toList = word.toList ++ Nat.toDigits 10 n := by
    simp [toString, Nat.repr]
  obtain ⟨c, hc⟩ := List.exists_mem_of_ne_nil _ (Nat.toDigits_ne_nil (b := 10) (n := n))
  apply isName_of (c := c)
  · have hall : ∀ c ∈ Nat.toDigits 10 n, isLetterOrDigit c = true := fun c hc => by
      rw [isLetterOrDigit, isDigit_of_mem_toDigits hc, Bool.or_true]
    rw [isWord, htext, List.all_append, hword, List.all_eq_true.mpr hall]
    simp [Nat.toDigits_ne_nil]
  · rw [htext]
    exact List.mem_append_right _ hc
  · exact isLower_toLower_digit (isDigit_of_mem_toDigits hc)

end Stencil.Dot

namespace Stencil.Graph

open Dot

theorem isName_text (id : NodeId) : isName id.text = true := isName_numbered rfl id.index

theorem isName_gridNode (g : Grid) : isName (gridNode g) = true := by
  have htext : (gridNode g).toList = "grid_".toList
      ++ g.name.toList.map fun c => if isLetterOrDigit c then c else '_' := by
    simp [gridNode, sanitize]
  apply isName_of (c := '_')
  · have hall : ∀ c ∈ g.name.toList.map (fun c => if isLetterOrDigit c then c else '_'),
        isLetterOrDigit c = true := by
      intro c hc
      obtain ⟨d, _, rfl⟩ := List.mem_map.mp hc
      by_cases hd : isLetterOrDigit d = true
      · rw [if_pos hd]; exact hd
      · rw [if_neg hd]; rfl
    rw [isWord, htext, List.all_append, List.all_eq_true.mpr hall]
    rfl
  · rw [htext]
    exact List.mem_append_left _ (by decide)
  · rfl

/-! ## The statements of a graph -/

def gridStatement (g : Grid) : Statement :=
  .node (gridNode g) (drawn "cylinder" "lightsalmon" g.text)

def pointStatement (v : PointVertex) : Statement :=
  .node v.id.text (drawn "box" "lightyellow" v.point.text)

def Label.drawn : Label → Attributes
  | equals => Dot.drawn "doubleoctagon" "lightblue" "EQUALS"
  | operator op => Dot.drawn "circle" "lightgreen" op.symbol
  | const v => Dot.drawn "plaintext" "white" v.text

def vertexStatement (v : Vertex) : Statement := .node v.id.text v.label.drawn

def edgeStatement (e : Edge) : Statement := .edge e.source.text e.target.text []

def tieStatement (v : PointVertex) : Statement :=
  .edge v.id.text (gridNode v.point.grid) dashed

/-- The name of an equation's block. -/
def clusterName (c : Cluster) : String := "cluster_eq" ++ toString c.index

def clusterStatements (c : Cluster) : List Statement :=
  [.setting "label" c.equation.text, .setting "style" "rounded", .setting "color" "gray50"]
    ++ c.vertices.map vertexStatement

/-- Grids, points, equations with their nodes, and edges. The nodes of an equation stand in its
    block. -/
def document (g : Graph) (s : Solution) : Document :=
  [([s.name], .setting "rankdir" "BT"),
    ([s.name], .default "node" [("fontname", "Helvetica"), ("fontsize", "10")]),
    ([s.name], .default "edge" [("fontname", "Helvetica"), ("fontsize", "9")])]
  ++ s.grids.map (fun grid => ([s.name], gridStatement grid))
  ++ g.points.map (fun v => ([s.name], pointStatement v))
  ++ g.clusters.flatMap (fun c => (clusterStatements c).map ([clusterName c, s.name], ·))
  ++ g.edges.map (fun e => ([s.name], edgeStatement e))
  ++ g.points.map (fun v => ([s.name], tieStatement v))

theorem says_vertexLine {blocks : List String} (v : Vertex) :
    Says blocks (vertexLine v ++ "\n") [(blocks, vertexStatement v)] := by
  obtain ⟨id, label⟩ := v
  have hindent : Lexes "        " [] := fun _ => rfl
  cases label with
  | equals => exact says_node "EQUALS" hindent (isName_text id) (by decide) (by decide)
  | operator op => exact says_node op.symbol hindent (isName_text id) (by decide) (by decide)
  | const v => exact says_node v.text hindent (isName_text id) (by decide) (by decide)

/-! ### Lines -/

theorem unlines_append (ls ls' : List String) : unlines (ls ++ ls') = unlines ls ++ unlines ls' := by
  simp [unlines]

theorem unlines_cons (l : String) (ls : List String) : unlines (l :: ls) = l ++ "\n" ++ unlines ls := by
  simp [unlines, String.join_cons]

variable {blocks : List String}

theorem says_cons {line : String} {lines : List String} {ss ss' : Document}
    (h : Says blocks (line ++ "\n") ss) (h' : Says blocks (unlines lines) ss') :
    Says blocks (unlines (line :: lines)) (ss ++ ss') := by
  rw [unlines_cons]
  exact h.append h'

theorem says_append {lines lines' : List String} {ss ss' : Document}
    (h : Says blocks (unlines lines) ss) (h' : Says blocks (unlines lines') ss') :
    Says blocks (unlines (lines ++ lines')) (ss ++ ss') := by
  rw [unlines_append]
  exact h.append h'

/-- Lines made from the items of a list say what those of each item say. -/
theorem says_flatMap {α : Type} (xs : List α) {lines : α → List String} {statements : α → Document}
    (h : ∀ x ∈ xs, Says blocks (unlines (lines x)) (statements x)) :
    Says blocks (unlines (xs.flatMap lines)) (xs.flatMap statements) := by
  induction xs with
  | nil => exact says_nil fun _ => rfl
  | cons x xs ih =>
    rw [List.flatMap_cons, List.flatMap_cons]
    exact says_append (h x List.mem_cons_self) (ih fun y hy => h y (List.mem_cons_of_mem x hy))

/-- One line for each item of a list says one statement for each. -/
theorem says_map {α : Type} (xs : List α) {line : α → String} {statement : α → Statement}
    (h : ∀ x, Says blocks (line x ++ "\n") [(blocks, statement x)]) :
    Says blocks (unlines (xs.map line)) (xs.map fun x => (blocks, statement x)) := by
  induction xs with
  | nil => exact says_nil fun _ => rfl
  | cons x xs ih => exact says_cons (h x) ih

/-- The title of a section is a comment, and says nothing. -/
theorem says_titled (title : String) {lines : List String} {ss : Document}
    (h : Says blocks (unlines lines) ss) (htitle : Lexes ("    // " ++ title ++ "\n") []) :
    Says blocks (unlines (titled title lines)) ss := by
  cases lines with
  | nil => exact h
  | cons line lines =>
    exact says_cons (says_nil fun _ => rfl) (says_cons (says_nil htitle) h)

/-- An equation's block: its settings, and then its nodes. -/
theorem says_cluster (name : String) (c : Cluster) :
    Says [name] (unlines (clusterLines c))
      ((clusterStatements c).map ([clusterName c, name], ·)) := by
  have hlabel : Says [clusterName c, name] _ _ := says_label c.equation.text
  have hstyle : Says [clusterName c, name] ("        style=rounded;" ++ "\n")
      [([clusterName c, name], .setting "style" "rounded")] :=
    ⟨[.word "style", .symbol '=', .word "rounded", .symbol ';'], fun _ => rfl, fun _ => rfl⟩
  have hcolor : Says [clusterName c, name] ("        color=gray50;" ++ "\n")
      [([clusterName c, name], .setting "color" "gray50")] :=
    ⟨[.word "color", .symbol '=', .word "gray50", .symbol ';'], fun _ => rfl, fun _ => rfl⟩
  have hvertices : Says [clusterName c, name] _ _ := says_map c.vertices says_vertexLine
  obtain ⟨ts, hlex, hmakes⟩ :=
    says_cons hlabel (says_cons hstyle (says_cons hcolor hvertices))
  have hname : isName (clusterName c) = true := isName_numbered rfl c.index
  have hopen : Lexes "\n    subgraph " [.word "subgraph"] := fun _ => rfl
  have hbegin : Lexes " \x7b\n" [.symbol '\x7b'] := fun _ => rfl
  have hend : Lexes "    \x7d\n" [.symbol '\x7d'] := fun _ => rfl
  -- the name of the block is a word, which ends at the blank before the brace
  have htext := hopen.append ((hbegin.append (hlex.append hend)).word (isWord_of_isName hname)
    (by simp [stopsWord]; decide))
  have hlines : unlines (clusterLines c) = "\n    subgraph " ++ (clusterName c ++ (" \x7b\n"
      ++ (unlines (("        label=\"" ++ escape c.equation.text ++ "\";") :: "        style=rounded;"
        :: "        color=gray50;" :: c.vertices.map vertexLine) ++ "    \x7d\n"))) := by
    rw [← String.toList_inj]
    simp [clusterLines, clusterName, unlines]
  refine ⟨[.word "subgraph", .word (clusterName c), .symbol '\x7b'] ++ ts ++ [.symbol '\x7d'], ?_, ?_⟩
  · rw [hlines]
    simpa using htext
  · have hblock := hmakes.block (name?_word hname)
    rw [clusterStatements, List.map_append, List.map_map]
    exact hblock

/-- The lines between the first one and the last one. -/
def bodyLines (g : Graph) (s : Solution) : List String :=
  ["    rankdir=BT;", "    node [fontname=\"Helvetica\", fontsize=10];",
    "    edge [fontname=\"Helvetica\", fontsize=9];"]
  ++ titled "Grids" (s.grids.map gridLine)
  ++ titled "Points" (g.points.map pointLine)
  ++ g.clusters.flatMap clusterLines
  ++ titled "Dataflow" (g.edges.map edgeLine)
  ++ titled "Storage" (g.points.map storageLine)

theorem lines_eq (g : Graph) (s : Solution) :
    g.lines s = ("digraph \"" ++ escape s.name ++ "\" \x7b") :: (g.bodyLines s ++ ["\x7d"]) := rfl

/-- **The body of the graph** says its settings, the grids, the points, the equations, the edges and
    the ties, in this order. -/
theorem says_bodyLines (g : Graph) (s : Solution) :
    Says [s.name] (unlines (g.bodyLines s)) (g.document s) := by
  have hrank : Says [s.name] ("    rankdir=BT;" ++ "\n") [([s.name], .setting "rankdir" "BT")] :=
    ⟨[.word "rankdir", .symbol '=', .word "BT", .symbol ';'], fun _ => rfl, fun _ => rfl⟩
  have hnode : Says [s.name] ("    node [fontname=\"Helvetica\", fontsize=10];" ++ "\n")
      [([s.name], .default "node" [("fontname", "Helvetica"), ("fontsize", "10")])] :=
    ⟨[.word "node", .symbol '[', .word "fontname", .symbol '=', .quoted "Helvetica", .symbol ',',
      .word "fontsize", .symbol '=', .word "10", .symbol ']', .symbol ';'], fun _ => rfl,
      fun _ => rfl⟩
  have hedge : Says [s.name] ("    edge [fontname=\"Helvetica\", fontsize=9];" ++ "\n")
      [([s.name], .default "edge" [("fontname", "Helvetica"), ("fontsize", "9")])] :=
    ⟨[.word "edge", .symbol '[', .word "fontname", .symbol '=', .quoted "Helvetica", .symbol ',',
      .word "fontsize", .symbol '=', .word "9", .symbol ']', .symbol ';'], fun _ => rfl,
      fun _ => rfl⟩
  have hnone : Says [s.name] (unlines []) [] := says_nil fun _ => rfl
  have hhead := says_cons hrank (says_cons hnode (says_cons hedge hnone))
  have hindent : Lexes "    " [] := fun _ => rfl
  have hgrids : Says [s.name] (unlines (s.grids.map gridLine)) _ :=
    says_map s.grids fun grid =>
      says_node grid.text hindent (isName_gridNode grid) (by decide) (by decide)
  have hpoints : Says [s.name] (unlines (g.points.map pointLine)) _ :=
    says_map g.points fun v =>
      says_node v.point.text hindent (isName_text v.id) (by decide) (by decide)
  have hclusters : Says [s.name] (unlines (g.clusters.flatMap clusterLines)) _ :=
    says_flatMap g.clusters fun c _ => says_cluster s.name c
  have hedges : Says [s.name] (unlines (g.edges.map edgeLine)) _ :=
    says_map g.edges fun e => says_edge (isName_text e.source) (isName_text e.target)
  have hties : Says [s.name] (unlines (g.points.map storageLine)) _ :=
    says_map g.points fun v => says_tie (isName_text v.id) (isName_gridNode v.point.grid)
  -- the sections in their order, each after its title
  exact says_append (says_append (says_append (says_append (says_append hhead
    (says_titled "Grids" hgrids fun _ => rfl)) (says_titled "Points" hpoints fun _ => rfl))
    hclusters) (says_titled "Dataflow" hedges fun _ => rfl))
    (says_titled "Storage" hties fun _ => rfl)

/-- **The text of a graph is read as its document**, for every solution, whatever its names are. -/
theorem read_dot (s : Solution) : read s.dot = some (s.graph.document s) := by
  rw [Solution.dot, lines_eq, unlines_cons, unlines_append, ← String.append_assoc]
  exact read_eq_some (says_bodyLines s.graph s)

end Stencil.Graph
