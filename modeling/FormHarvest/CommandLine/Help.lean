namespace FormHarvest

/-- The version of the program. -/
def programVersion : String := "1.0.0"

/-- The name of the program. -/
def programName : String := "formlocalizer"

/-- How the program is called. -/
def mainUsage : List String :=
  ["usage: formlocalizer [-h] [--version] \x7bextract\x7d ..."]

/-- What the program can do. -/
def mainHelp : List String :=
  ["",
    "FormLocalizer v1.0.0 CLI",
    "",
    "positional arguments:",
    "  \x7bextract\x7d   Available commands",
    "    extract   Extract form messages from PHP sources",
    "",
    "options:",
    "  -h, --help  show this help message and exit",
    "  --version   show program's version number and exit"]

/-- How the command that extracts messages is called. -/
def extractUsage : List String :=
  ["usage: formlocalizer extract [-h] [--dir DIRS] [--exclude-dir EXCLUDE_DIR]",
    "                             [--exclude-name EXCLUDE_NAME] [--domain DOMAIN]",
    "                             [--ignore-domain IGNORE_DOMAIN]",
    "                             [--output-dir OUTPUT_DIR]",
    "                             [--output-format \x7bxlf,json\x7d] [--config CONFIG]",
    "                             [--custom-field CUSTOM_FIELD] [--legacy-choices]",
    "                             [--strict] [--dry-run] [--report REPORT]",
    "                             [--add-filerefs | --no-add-filerefs] [--verbose]",
    "                             [locales ...]"]

/-- What the command that extracts messages can do. -/
def extractHelp : List String :=
  ["",
    "positional arguments:",
    "  locales               Locales to write catalogues for (default: from config)",
    "",
    "options:",
    "  -h, --help            show this help message and exit",
    "  --dir DIRS, -d DIRS   Directory to scan (repeatable)",
    "  --exclude-dir EXCLUDE_DIR",
    "                        Directory name to skip (repeatable, globs allowed)",
    "  --exclude-name EXCLUDE_NAME",
    "                        File name glob to skip (repeatable)",
    "  --domain DOMAIN       Only write this domain (repeatable)",
    "  --ignore-domain IGNORE_DOMAIN",
    "                        Never write this domain (repeatable)",
    "  --output-dir OUTPUT_DIR, -o OUTPUT_DIR",
    "                        Output directory",
    "  --output-format \x7bxlf,json\x7d",
    "                        Output format",
    "  --config CONFIG, -c CONFIG",
    "                        Path to JSON configuration file",
    "  --custom-field CUSTOM_FIELD",
    "                        Extra option key holding messages, e.g. 'help'",
    "                        (repeatable)",
    "  --legacy-choices      Read choice labels from values unless",
    "                        choices_as_values is set",
    "  --strict              Fail on the first option value that cannot be",
    "                        extracted",
    "  --dry-run             Extract but do not write files",
    "  --report REPORT       Write a JSON extraction report to this path",
    "  --add-filerefs, --no-add-filerefs",
    "                        Write source file references",
    "  --verbose, -v         Enable verbose logging"]

/-- Lines as a text, each with a line end. -/
def linesText (lines : List String) : String := String.join (lines.map (· ++ "\n"))

end FormHarvest
