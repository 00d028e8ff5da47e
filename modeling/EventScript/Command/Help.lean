import EventScript.Command.Arguments
/-! Help texts of the command. -/
namespace EventScript.Command

def version : String := "dpla 0.1.0\n"

namespace Opt

def about : Opt → String
  | verbose => "Print stage summaries to stderr"
  | config => "Config file (default: ~/.dpla/config.yaml)"
  | noPreamble => "Leave out the runtime preamble"
  | indent => "Spaces per nesting level"
  | output => "Write to a file instead of stdout"
  | json => ""
  | key => "Key to press after launch (DOM key name, repeatable)"
  | interactive => "Read key presses from the terminal until Ctrl-C"
  | help => "Print help"
  | version => "Print version"

def usage (o : Opt) : String :=
  (match o.short? with
    | some c => "-" ++ c.toString ++ ", "
    | none => "    ") ++ "--" ++ o.long ++
  (match o.value? with
    | some name => " <" ++ name ++ ">"
    | none => "")

end Opt

namespace Subcommand

def about : Subcommand → String
  | compile => "Compile a script to JavaScript"
  | tokens => "List the tokens of a script"
  | ast => "Dump the syntax tree of a script"
  | run => "Run a script: load it, fire onLaunch, then each key press"

def fileAbout : Subcommand → String
  | compile => "Source file; stdin when omitted"
  | _ => ""

end Subcommand

def helpAbout : String := "Print this message or the help of the given subcommand(s)"

def table (heading : String) (rows : List (String × String)) : String :=
  let width := (rows.map fun row => row.1.length).foldl max 0
  let row (left right : String) : String :=
    "  " ++ left ++ String.ofList (List.replicate (width - left.length + 2) ' ') ++ right ++ "\n"
  heading ++ ":\n" ++ String.join (rows.map fun (left, right) => row left right)

namespace Topic

def optionRows (t : Topic) : List (String × String) := t.options.map fun o => (o.usage, o.about)

def helpText : Topic → String
  | command =>
    "DPLA to JavaScript compiler\n\nUsage: dpla [OPTIONS] <COMMAND>\n\n" ++
      table "Commands"
        (Subcommand.all.map (fun s => (s.name, s.about)) ++ [("help", helpAbout)]) ++
      "\n" ++ table "Options" command.optionRows
  | subcommand s =>
    s.about ++ "\n\nUsage: dpla " ++ s.name ++ " [OPTIONS] [FILE]\n\n" ++
      table "Arguments" [("[FILE]", s.fileAbout)] ++
      "\n" ++ table "Options" (subcommand s).optionRows
  | help =>
    helpAbout ++ "\n\nUsage: dpla help [COMMAND]...\n\n" ++
      table "Arguments" [("[COMMAND]...", "Print help for the subcommand(s)")]

end Topic

end EventScript.Command
