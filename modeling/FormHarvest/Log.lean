namespace FormHarvest

/-- How much a log record matters. -/
inductive LogLevel where
  | debug
  | info
  | warning
  | error
deriving DecidableEq

def LogLevel.name : LogLevel → String
  | .debug => "DEBUG"
  | .info => "INFO"
  | .warning => "WARNING"
  | .error => "ERROR"

/-- The part of the program that a log record comes from. -/
inductive LogSource where
  | annotations
  | catalogue
  | discovery
  | extraction
  | output
  | parser
  | pipeline
  | report
  | settings
deriving DecidableEq

/-- The name under which a part of the program is shown in the log. -/
def LogSource.name : LogSource → String
  | .annotations => "formlocalizer.core.annotations"
  | .catalogue => "formlocalizer.core.catalogue"
  | .discovery => "formlocalizer.utils.file_finder"
  | .extraction => "formlocalizer.core.form_extractor"
  | .output => "formlocalizer.core.output_formatter"
  | .parser => "formlocalizer.core.php_parser"
  | .pipeline => "formlocalizer.core.extraction_pipeline"
  | .report => "formlocalizer.core.diagnostics"
  | .settings => "formlocalizer.utils.config"

/-- One entry of the log. -/
structure LogRecord where
  level : LogLevel
  source : LogSource
  text : String
deriving DecidableEq

end FormHarvest
