/-
# Hints

Some failures have a well-known remedy.  The table lists a phrase that gives such a failure
away and what usually helps; the first phrase that occurs in a message decides.
-/

namespace DeployWatch.Hint

/-- Telltale phrases, each with its remedy. -/
def table : List (String × String) :=
  [("ExpiredToken",
    "Your cloud credentials have expired. Refresh them (e.g. `aws sso login`) and retry."),
   ("security token included in the request is invalid",
    "The configured profile has invalid credentials. Check `--profile` and your credentials file."),
   ("has not been bootstrapped",
    "The target environment is not bootstrapped. Run `cdk bootstrap` for the account and region."),
   ("Rate exceeded", "The provider is throttling requests. Wait a moment, then retry."),
   ("Throttling", "The provider is throttling requests. Wait a moment, then retry."),
   ("Command not found",
    "The deployment tool is not installed or not on PATH. Install it or set `[deploy] program`."),
   ("does not exist",
    "The named resource could not be found. Check the identifier and the selected region.")]

/-- A text occurs in another. -/
def occursIn (needle : List Char) : List Char → Bool
  | [] => needle.isEmpty
  | c :: rest => needle.isPrefixOf (c :: rest) || occursIn needle rest

/-- The remedy for a message, if one is known. -/
def forMessage? (message : String) : Option String :=
  (table.find? fun row => occursIn row.1.toList message.toList).map (·.2)

end DeployWatch.Hint
