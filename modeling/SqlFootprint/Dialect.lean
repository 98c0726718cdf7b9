import SqlFootprint.Text.Ascii
import SqlFootprint.Text.Blank
import SqlFootprint.Text.Letter
import SqlFootprint.Token

/-!
# Dialects of SQL

The six dialects and, for each, the decisions by which its lexer differs from the others, as one
record `Lexicon`. A dialect is chosen by name: `Dialect.ofName?` trims the name, ignores the case
of its ASCII letters and knows a few aliases, and `ofName?_name` says that every dialect is found
under its own name.
-/

namespace SqlFootprint

/-- The dialects of SQL that can be read. -/
inductive Dialect where
  | generic
  | ansi
  | mssql
  | postgres
  | mysql
  | sqlite
  deriving DecidableEq, Repr, Inhabited

/-- The decisions of a dialect about its tokens. -/
structure Lexicon where
  /-- Characters that start an unquoted word. -/
  startsWord : Char → Bool
  /-- Characters that continue an unquoted word. -/
  continuesWord : Char → Bool
  /-- Delimiters of quoted words. -/
  quotes : List Quote
  /-- A backslash escapes the next character of a string. -/
  backslashEscapes : Bool := false
  /-- `B'..'` is a string of bytes. -/
  byteStrings : Bool := false
  /-- `R'..'` is a raw string. -/
  rawStrings : Bool := false
  /-- `U&'..'` is a string with code points. -/
  unicodeStrings : Bool := false
  /-- A word may start with digits. -/
  numericWords : Bool := false
  /-- Block comments nest. -/
  nestedComments : Bool := false
  /-- `#` starts a comment. -/
  hashComments : Bool := false
  /-- A carriage return ends a line comment. -/
  returnEndsComment : Bool := false
  /-- `//` is one symbol. -/
  doubleSlash : Bool := false
  /-- Operators extend over all following operator characters. -/
  customOperators : Bool := false
  /-- `?` is an operator and not a placeholder. -/
  questionOperators : Bool := false
  /-- `$` starts a placeholder and never a string. -/
  dollarPlaceholders : Bool := false

/-- The word delimiter that a character opens in a dialect. -/
def Lexicon.quote? (lexicon : Lexicon) (c : Char) : Option Quote :=
  lexicon.quotes.find? fun quote ↦ quote.opening == c

namespace Dialect

/-- The dialects, in the order in which they are offered. -/
def all : List Dialect := [generic, ansi, mssql, postgres, mysql, sqlite]

/-- The name of a dialect. -/
def name : Dialect → String
  | generic => "generic"
  | ansi => "ansi"
  | mssql => "mssql"
  | postgres => "postgres"
  | mysql => "mysql"
  | sqlite => "sqlite"

/-- Other names under which a dialect is found. -/
def aliases : Dialect → List String
  | mssql => ["tsql", "sqlserver"]
  | postgres => ["postgresql"]
  | _ => []

/-- The dialect of a name, white space around it and the case of ASCII letters aside. -/
def ofName? (text : String) : Option Dialect :=
  let wanted := String.ofList (Text.folded (Text.trim text))
  all.find? fun dialect ↦ wanted == dialect.name || dialect.aliases.contains wanted

/-- Words start with a letter of any script or one of a few marks. -/
private def letterOr (marks : List Char) (c : Char) : Bool :=
  Text.isAlphabetic c || marks.contains c

/-- Words go on with a letter of any script, an ASCII digit or one of a few marks. -/
private def letterDigitOr (marks : List Char) (c : Char) : Bool :=
  Text.isAlphabetic c || c.isDigit || marks.contains c

private def mysqlStart (c : Char) : Bool :=
  letterOr ['_', '$', '@'] c || (0x80 ≤ c.toNat && c.toNat ≤ 0xFFFF)

private def sqliteStart (c : Char) : Bool :=
  c.isAlpha || c == '_' || (0x7F ≤ c.toNat && c.toNat ≤ 0xFFFF)

/-- The decisions of each dialect. -/
def lexicon : Dialect → Lexicon
  | generic => {
      startsWord := letterOr ['_', '#', '@']
      continuesWord := letterDigitOr ['@', '$', '#', '_']
      quotes := [.double, .backtick]
      byteStrings := true
      rawStrings := true
      unicodeStrings := true
      nestedComments := true
      doubleSlash := true }
  | ansi => {
      startsWord := Char.isAlpha
      continuesWord := fun c ↦ c.isAlphanum || c == '_'
      quotes := [.double, .backtick] }
  | mssql => {
      startsWord := letterOr ['_', '#', '@']
      continuesWord := letterDigitOr ['@', '$', '#', '_']
      quotes := [.double, .bracket] }
  | postgres => {
      startsWord := letterOr ['_']
      continuesWord := letterDigitOr ['$', '_']
      quotes := [.double]
      byteStrings := true
      unicodeStrings := true
      nestedComments := true
      returnEndsComment := true
      customOperators := true
      questionOperators := true }
  | mysql => {
      startsWord := mysqlStart
      continuesWord := fun c ↦ mysqlStart c || c.isDigit
      quotes := [.backtick]
      backslashEscapes := true
      byteStrings := true
      numericWords := true
      hashComments := true }
  | sqlite => {
      startsWord := sqliteStart
      continuesWord := fun c ↦ sqliteStart c || c.isDigit
      quotes := [.backtick, .double, .bracket]
      dollarPlaceholders := true }

/-- Every dialect is found under its own name. -/
theorem ofName?_name (dialect : Dialect) : ofName? dialect.name = some dialect := by
  cases dialect <;> decide +kernel

/-- Every alias of a dialect finds it. -/
theorem ofName?_alias (dialect : Dialect) :
    ∀ name ∈ dialect.aliases, ofName? name = some dialect := by
  cases dialect <;> decide +kernel

end Dialect

end SqlFootprint
