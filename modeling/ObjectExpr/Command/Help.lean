/-
  ObjectExpr.Command.Help — the texts that the command prints about itself.
-/

namespace ObjectExpr.Command

def versionText : String := "clon 0.1.0\n"

def banner : List String :=
  ["     _",
   " ___| |___ ___    commandline",
   "|  _| | . |   | object notation",
   "|___|_|___|_|_|    language"]

def usage : List String :=
  ["Commandline object notation - build JSON or YAML from a compact expression",
   "",
   "Usage: clon [OPTIONS] [EXPRESSION]...",
   "",
   "Arguments:",
   "  [EXPRESSION]...  The expression (reads from stdin if not provided)",
   "",
   "Options:",
   "      --yaml             Output YAML instead of JSON",
   "      --env-file <PATH>  Dotenv file loaded before resolving ^VAR references [default: .env]",
   "  -h, --help             Print help",
   "  -V, --version          Print version"]

def examples : List String :=
  ["EXAMPLES:",
   "  clon user = \x7b name=foo age=:30 type=C \x7d",
   "  clon --yaml kind=Service metadata.name=bb-entrypoint metadata.namespace=default",
   "  echo 'tags=[a b c] version=^APP_VERSION' | clon"]

def forms : List String :=
  ["SYNTAX:",
   "  name=value          string field",
   "  name=:42            typed literal (integer, float, true, false, null)",
   "  name=^VAR           environment variable",
   "  a.b.c=value         nested object path",
   "  name=\x7b ... \x7d        object",
   "  name=[ ... ]        array; [x=1] is an array holding \x7bx: \"1\"\x7d"]

def helpText : String :=
  String.join ((banner ++ [""] ++ usage ++ [""] ++ examples ++ [""] ++ forms).map (· ++ "\n"))

end ObjectExpr.Command
