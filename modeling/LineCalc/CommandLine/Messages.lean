/-!
# Messages of the command line

The texts that are printed for `--help` and `--version`.
-/

set_option autoImplicit false

namespace LineCalc.CommandLine

def programName : String :=
  "calculatrice_fractions"

def versionText : String :=
  programName ++ " 0.1.0\n"

def helpLines : List String :=
  ["Calculatrice en ligne de commande : fractions (3/4 + 1/2), décimaux, et “what percent of 25 is 5?”",
   "",
   "Usage: " ++ programName ++ " [OPTIONS] [EXPRESSION]",
   "",
   "Arguments:",
   "  [EXPRESSION]  Expression à évaluer une seule fois (sinon : mode interactif)",
   "",
   "Options:",
   "      --decimals <DECIMALS>",
   "          Chiffres après la virgule pour l'arrondi du résultat [default: 2]",
   "      --max-denominator <MAX_DENOMINATOR>",
   "          Plus grand dénominateur essayé pour la forme fractionnaire [default: 5000]",
   "      --rpn",
   "          Affiche aussi les jetons et la RPN de chaque calcul",
   "  -v, --verbose...",
   "          Verbosité du journal (répétable)",
   "  -h, --help",
   "          Print help",
   "  -V, --version",
   "          Print version"]

end LineCalc.CommandLine
