/-
# Help pages

The help page of a command, made from its table: what it does, how it is called, and one line
for each command below it, each argument and each option, in columns.
-/

import DeployWatch.Cli.Command

namespace DeployWatch.Cli

/-- An option as it is written in messages. -/
def OptionSpec.text (o : OptionSpec) : String :=
  "--" ++ o.long ++ (if o.kind.takesValue then " <" ++ o.valueName ++ ">"
    else if o.kind = .count then "..." else "")

/-- An argument as it is written in messages. -/
def ArgumentSpec.text (a : ArgumentSpec) : String :=
  (if a.required then "<" ++ a.name ++ ">" else "[" ++ a.name ++ "]")
    ++ (if a.repeated then "..." else "")

namespace CommandName

/-- How a command is called. -/
def usage (c : CommandName) : String :=
  String.intercalate " " (["Usage:", c.text]
    ++ (if c.options.isEmpty then [] else ["[OPTIONS]"])
    ++ c.arguments.map ArgumentSpec.text
    ++ (if c.children.isEmpty then [] else ["<COMMAND>"]))

/-- Lines of two columns under a title; nothing if there are no lines. -/
def columns (title : String) (rows : List (String × String)) : String :=
  if rows.isEmpty then ""
  else
    let width := (rows.map (·.1.length)).foldl max 0
    "\n" ++ title ++ ":\n" ++ String.join (rows.map fun row =>
      "  " ++ row.1 ++ String.ofList (List.replicate (width - row.1.length + 2) ' ')
        ++ row.2 ++ "\n")

/-- The line of an option. -/
def optionRow (o : OptionSpec) : String × String :=
  let short := match o.short with
    | some c => String.ofList ['-', c, ',', ' ']
    | none => "    "
  let standard := match o.standard with
    | some value => " [default: " ++ value ++ "]"
    | none => ""
  (short ++ o.text, o.summary ++ standard)

/-- The help page. -/
def helpPage (c : CommandName) : String :=
  c.summary ++ "\n\n" ++ c.usage ++ "\n"
    ++ columns "Commands" (c.children.map fun child => (child.word, child.summary))
    ++ columns "Arguments" (c.arguments.map fun a => (a.text, a.summary))
    ++ columns "Options" (c.options.map optionRow)

end CommandName

end DeployWatch.Cli
