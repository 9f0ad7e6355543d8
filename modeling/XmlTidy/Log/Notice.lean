import XmlTidy.Printing.Report
import XmlTidy.Log.Record

/-!
The log lines of the notices that formatting gives.
-/

namespace XmlTidy

namespace Notice

def component : Notice → String
  | .syntaxError | .parsedDocument => "syntax_parser"
  | .splicingRanges | .embedderFailed => "node_printer"
  | .formattingFile | .formattedDocument => "formatter"
  | .pathNotFound | .fileFailed => "cli_processor"

def logger : Notice → String
  | .syntaxError | .parsedDocument => Log.root ++ ".syntax.parser"
  | .splicingRanges | .embedderFailed => Log.root ++ ".printer.document"
  | .formattingFile | .formattedDocument => Log.root ++ ".api.formatter"
  | .pathNotFound | .fileFailed => Log.root ++ ".cli.main"

def level : Notice → Level
  | .embedderFailed | .pathNotFound => .warning
  | _ => .debug

def message : Notice → String
  | .syntaxError => "Syntax error"
  | .parsedDocument => "Parsed document"
  | .splicingRanges => "Splicing ignore ranges"
  | .embedderFailed => "Embedded formatter failed, using regular layout"
  | .formattingFile => "Formatting file"
  | .formattedDocument => "Formatted document"
  | .pathNotFound => "Path not found"
  | .fileFailed => "Failed to format file"

def record (notice : Notice) : Log.Record where
  level := notice.level
  logger := notice.logger
  component := notice.component
  message := notice.message

end Notice

end XmlTidy
