import FormHarvest.Files.FileSystem
import FormHarvest.Report.Basic

namespace FormHarvest.Report

/-- Writes the report to a file, with the folders around it. -/
def save (report : Report) (path : Path) : FileAction Unit :=
  FileAction.writeWithFolders path (report.toJson.write (.lines 2)).toUTF8

/-- The error that is logged when the report could not be written. -/
def saveFailed (path : Path) (fault : FileFault) : LogRecord :=
  ⟨.error, .report, s!"Could not write report {path.text}: {fault.message}"⟩

end FormHarvest.Report
