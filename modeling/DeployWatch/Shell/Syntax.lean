/-
# The syntax of shell scripts

The deployment tool may be a shell script, so the host that runs it has to know the shell's
language: words with quotes and expansions, redirections, and commands built from simple
ones.  Arithmetic and command substitutions keep their source; it is read when they are
expanded.
-/

namespace DeployWatch.Shell

/-- What is made of a parameter that may be unset. -/
inductive Modifier where
  /-- The value as it is. -/
  | plain
  /-- Another word if the parameter is unset, or also if it is empty. -/
  | default (orEmpty : Bool) (word : String)
  /-- Another word if the parameter is set. -/
  | alternative (orEmpty : Bool) (word : String)
  /-- The number of characters. -/
  | count
  /-- The value without a suffix that matches a pattern, the shortest or the longest. -/
  | dropSuffix (longest : Bool) (pattern : String)
  /-- The value without a prefix that matches a pattern, the shortest or the longest. -/
  | dropStart (longest : Bool) (pattern : String)
  deriving DecidableEq, Repr, Inhabited

/-- A piece of a word. -/
inductive Part where
  | text (content : String)
  | quoted (content : String)
  | parameter (name : String) (modifier : Modifier) (inQuotes : Bool)
  | arithmetic (source : String) (inQuotes : Bool)
  | substitution (source : String) (inQuotes : Bool)
  deriving DecidableEq, Repr, Inhabited

/-- A word, from its pieces. -/
abbrev Word := List Part

/-- What a redirection connects a descriptor to. -/
inductive Target where
  | readFrom (file : Word)
  | writeTo (file : Word)
  | appendTo (file : Word)
  | copyOf (descriptor : Word)
  deriving DecidableEq, Repr, Inhabited

/-- A redirection of a descriptor. -/
structure Redirection where
  descriptor : Nat
  target : Target
  deriving DecidableEq, Repr, Inhabited

/-- A command. -/
inductive Script where
  | nothing
  /-- Assignments, then the words of a program and its arguments. -/
  | simple (line : Nat) (assignments : List (String × Word)) (words : List Word)
      (redirections : List Redirection)
  | pipe (left right : Script)
  | andThen (left right : Script)
  | orElse (left right : Script)
  | negated (body : Script)
  | sequence (first second : Script)
  | branch (condition yes no : Script)
  | loop (untilTrue : Bool) (condition body : Script)
  /-- A loop over words, or over the arguments. -/
  | each (name : String) (words : Option (List Word)) (body : Script)
  | choose (subject : Word) (cases : List (List Word × Script))
  | subshell (body : Script)
  | redirected (body : Script) (redirections : List Redirection)
  | define (name : String) (body : Script)
  deriving Repr, Inhabited

/-- A token of a script. -/
inductive Token where
  | word (w : Word)
  /-- An operator, or a line end. -/
  | operator (text : String)
  /-- A number directly before a redirection. -/
  | descriptor (n : Nat)
  deriving DecidableEq, Repr, Inhabited

end DeployWatch.Shell
