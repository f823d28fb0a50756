import ScriptFrontend.Lexeme.Reading

/-!
# Lexeme/Stream — reading a text from any position, one call at a time

A `Stream` is a text with a position in it and the place that belongs to the position.  Its calls
either succeed or fail with a `Fault`; both leave a stream behind (`Call`), so reading can go on
after a fault.

The position may be any integer.  Past the end nothing is left to read.  In front of the text, the
characters counted from the end come first: a stream at position `-2` reads the last two characters
and then the text from its start.  These **leading** characters can be consumed but not looked at,
so a call that consumes up to some character consumes all of them, and one that looks for a digit or
a letter stops at once.

Each `Request` asks a stream for one of these calls, or for a look at its text.  `Stream.answer`
gives the `Reply` and the stream afterwards.
-/

namespace ScriptFrontend

/-- A text, a position in it, and the place of that position. -/
structure Stream where
  text : List Char
  position : Int := 0
  place : Location := .start
  deriving DecidableEq

/-- Why a call on a stream fails. -/
inductive Fault where
  /-- A character was asked for at the end. -/
  | pastEnd (position line : Int)
  /-- The position is farther in front of the text than the text is long. -/
  | outOfRange
  /-- The character at the position spells no operator. -/
  | noOperator (c : Char)
  deriving DecidableEq

/-- What a fault says. -/
def Fault.message : Fault → String
  | pastEnd position line =>
    "CharacterStreamError: Attempted to read past end of source at position=<" ++
      toString position ++ ">, line=<" ++ toString line ++ ">"
  | outOfRange => "string index out of range"
  | noOperator c => quoted (String.singleton c)

/-- What a call answers, and the stream it leaves. -/
structure Call (α : Type) where
  answer : Except Fault α
  stream : Stream

/-- The call that goes on with the answer and the stream of another one, unless that failed. -/
def Call.bind {α β : Type} (call : Call α) (f : α → Stream → Call β) : Call β :=
  match call.answer with
  | .ok a => f a call.stream
  | .error fault => ⟨.error fault, call.stream⟩

namespace Stream

/-! ## Looking -/

/-- Whether nothing is left to read. -/
def atEnd (s : Stream) : Bool := s.text.length ≤ s.position

/-- The character at an index of the text. -/
def charAt? (s : Stream) (index : Int) : Option Char :=
  if index < 0 then none else s.text[index.toNat]?

/-- The character at an offset from the position. -/
def peek (s : Stream) (offset : Int) : Option Char := s.charAt? (s.position + offset)

/-- A bound of a slice: from the end if it is negative, and never outside the text. -/
def clamp (s : Stream) (bound : Int) : Nat :=
  if bound < 0 then (bound + s.text.length).toNat else min bound.toNat s.text.length

/-- The text between a start and the position. -/
def textSince (s : Stream) (start : Int) : String :=
  String.ofList ((s.text.take (s.clamp s.position)).drop (s.clamp start))

/-- The token of a kind whose lexeme is the text between a start and the position. -/
def tokenSince (s : Stream) (kind : Kind) (start : Int) (place : Location) : Token :=
  ⟨kind, s.textSince start, place⟩

/-- The text from the position on; all of it for a position in front of the text. -/
def ahead (s : Stream) : List Char := s.text.drop s.position.toNat

/-- The characters read at the positions in front of the text. -/
def leading (s : Stream) : List Char :=
  if s.position < 0 then s.text.drop (s.position + s.text.length).toNat else []

/-! ## Moving -/

/-- The stream behind the given characters. -/
def past (s : Stream) (read : List Char) : Stream :=
  ⟨s.text, s.position + read.length, s.place.past read⟩

/-- The character read next: at the position, or counted from the end. -/
def following (s : Stream) : Except Fault Char :=
  if s.atEnd then .error (.pastEnd s.position s.place.line)
  else
    match s.charAt? (if s.position < 0 then s.position + s.text.length else s.position) with
    | some c => .ok c
    | none => .error .outOfRange

/-- **The next character**, consumed.  A fault changes nothing. -/
def next (s : Stream) : Call Char :=
  match s.following with
  | .ok c => ⟨.ok c, s.past [c]⟩
  | .error fault => ⟨.error fault, s⟩

/-- The stream behind its leading characters. -/
def intoText (s : Stream) : Call Unit :=
  if s.position + s.text.length < 0 then ⟨.error .outOfRange, s⟩ else ⟨.ok (), s.past s.leading⟩

/-- Skips the gap at the position. -/
def skipGap (s : Stream) : Call Unit :=
  s.intoText.bind fun _ s => ⟨.ok (), s.past (s.ahead.takeWhile Cut.isGap)⟩

/-! ## Single forms of token -/

/-- The characters that a cut takes, as a token that starts where the origin stands. -/
def taking (s origin : Stream) (cut : Cut) : Call Token :=
  let s := s.past cut.taken
  ⟨.ok (s.tokenSince cut.kind origin.position origin.place), s⟩

/-- Reads a comment that ends in front of the next newline. -/
def lineComment (s : Stream) : Call Token :=
  s.intoText.bind fun _ t => t.taking s (Cut.lineComment t.ahead)

/-- Reads two characters and then a comment that ends behind the next pair of stars. -/
def blockComment (s : Stream) : Call Token :=
  s.next.bind fun _ t => t.next.bind fun _ t => t.intoText.bind fun _ t =>
    t.taking s ⟨.blockComment, (Cut.throughStars t.ahead).1, (Cut.throughStars t.ahead).2⟩

/-- Reads one character and then a quoted text that ends behind the next double quote. -/
def quotedText (s : Stream) : Call Token :=
  s.next.bind fun first t => t.intoText.bind fun _ t =>
    let cut := Cut.quotedText first t.ahead
    t.taking s ⟨cut.kind, cut.taken.tail, cut.left⟩

/-- Reads the digits at the position. -/
def number (s : Stream) : Call Token :=
  s.taking s (Cut.number (if s.position < 0 then [] else s.ahead))

/-- Reads the letters and digits at the position. -/
def word (vocabulary : Vocabulary) (s : Stream) : Call Token :=
  s.taking s (Cut.word vocabulary (if s.position < 0 then [] else s.ahead))

/-- Reads an operator.  A character that spells none is consumed all the same. -/
def operator (s : Stream) : Call Token :=
  s.next.bind fun first t =>
    match Cut.operator? first (if s.position < 0 then [] else s.ahead.tail) with
    | some cut => s.taking s cut
    | none => ⟨.error (.noOperator first), t⟩

/-! ## Whole tokens -/

/-- What is left to read of a stream that is not in front of its text. -/
def reading (s : Stream) : Reading := ⟨s.ahead, s.place⟩

/-- The stream where a reading of it has come to. -/
def resume (s : Stream) (reading : Reading) : Stream :=
  ⟨s.text, s.position + (s.ahead.length - reading.rest.length), reading.place⟩

/-- **The next token**, comments included. -/
def nextToken (vocabulary : Vocabulary) (s : Stream) : Call Token :=
  s.intoText.bind fun _ s =>
    let step := s.reading.next vocabulary
    ⟨.ok step.1, s.resume step.2⟩

/-- The tokens up to the end, without the comments. -/
def tokens (vocabulary : Vocabulary) (s : Stream) : Call (List Token) :=
  s.intoText.bind fun _ s =>
    let reached := ((s.reading.stepsToFinish vocabulary).map Prod.snd).getLastD s.reading
    ⟨.ok (s.reading.tokens vocabulary), s.resume reached⟩

/-! ## Requests -/

/-- What a stream can be asked for. -/
inductive Request where
  | next
  | peek (offset : Int)
  | atEnd
  | textSince (start : Int)
  | tokenSince (kind : Kind) (start : Int) (place : Location)
  | skipGap
  | nextToken
  /-- All tokens that are left. -/
  | tokens
  | lineComment
  | blockComment
  | operator
  | quotedText
  | number
  | word
  deriving DecidableEq

/-- What a stream replies. -/
inductive Reply where
  /-- The character looked at, if there is one. -/
  | character (c : Option Char)
  | truth (value : Bool)
  | text (text : String)
  | token (token : Token)
  | tokens (tokens : List Token)
  | nothing
  | fault (fault : Fault)
  deriving DecidableEq

/-- The reply to a call, and the stream that the call leaves. -/
def reply {α : Type} (call : Call α) (answered : α → Reply) : Reply × Stream :=
  match call.answer with
  | .ok a => (answered a, call.stream)
  | .error fault => (.fault fault, call.stream)

/-- **The reply to a request**, and the stream afterwards. -/
def answer (vocabulary : Vocabulary) (s : Stream) : Request → Reply × Stream
  | .next => reply s.next fun c => .character (some c)
  | .peek offset => (.character (s.peek offset), s)
  | .atEnd => (.truth s.atEnd, s)
  | .textSince start => (.text (s.textSince start), s)
  | .tokenSince kind start place => (.token (s.tokenSince kind start place), s)
  | .skipGap => reply s.skipGap fun _ => .nothing
  | .nextToken => reply (s.nextToken vocabulary) .token
  | .tokens => reply (s.tokens vocabulary) .tokens
  | .lineComment => reply s.lineComment .token
  | .blockComment => reply s.blockComment .token
  | .operator => reply s.operator .token
  | .quotedText => reply s.quotedText .token
  | .number => reply s.number .token
  | .word => reply (s.word vocabulary) .token

/-- The stream after some requests. -/
def after (vocabulary : Vocabulary) (s : Stream) (requests : List Request) : Stream :=
  requests.foldl (fun s request => (s.answer vocabulary request).2) s

end Stream

end ScriptFrontend
