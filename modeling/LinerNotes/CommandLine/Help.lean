import LinerNotes.Field

/-!
The usage and help texts of the command line.
-/

namespace LinerNotes.Help

/-- Lines with a line break after each. -/
def block (lines : List String) : String :=
  String.join (lines.map (· ++ "\n"))

def usageLines : List String := [
  "usage: tagsmith [-h] [--version] [-l VALUE] [--no-album] [-r VALUE]",
  "                [--no-artist] [-c VALUE] [--no-comment] [-g VALUE]",
  "                [--no-genre] [-t VALUE] [--no-title] [-n VALUE] [--no-track]",
  "                [-y VALUE] [--no-year] [--clear] [--extract SPEC]",
  "                [--rename SPEC] [--rename-fs SPEC] [--dry-run] [--recursive]",
  "                [--logging \x7blow,high\x7d]",
  "                [files ...]"]

def usage : String :=
  block usageLines

def column : Nat := 24

/-- The widest label that leaves room for a description on its line. -/
def labelWidth : Nat := 20

def padded (width : Nat) (text : String) : String :=
  text ++ String.ofList (List.replicate (width - text.length) ' ')

/-- A label with its description, given as lines; a wide label stands on a line of its own. -/
def entry (label : String) (description : List String) : List String :=
  let margin := padded column ""
  match description with
  | [] => ["  " ++ label]
  | first :: rest =>
      let continued := rest.map (margin ++ ·)
      if label.length ≤ labelWidth then (padded column ("  " ++ label) ++ first) :: continued
      else ("  " ++ label) :: (margin ++ first) :: continued

def fieldEntries (field : Field) : List String :=
  let note := if field.isNumeric then " (base-10 integer)" else ""
  entry ("-" ++ String.singleton field.letter ++ " VALUE, --" ++ field.name ++ " VALUE")
      ["Set " ++ field.name ++ note] ++
    entry ("--no-" ++ field.name) ["Clear " ++ field.name]

def placeholderLine (field : Field) : String :=
  "  %" ++ String.singleton field.letter ++ " / %" ++ String.singleton field.letter.toUpper ++
    "  " ++ padded 8 field.name ++ " (" ++ field.kind ++ ")"

def lines : List String :=
  usageLines ++
  ["", "Edit audio tags, fill tags from filenames and rename files from tags", "",
    "positional arguments:"] ++
  entry "files" ["Audio files or directories to process"] ++
  ["", "options:"] ++
  entry "-h, --help" ["show this help message and exit"] ++
  entry "--version" ["show program's version number and exit"] ++
  ["", "field edits:"] ++
  Field.all.flatMap fieldEntries ++
  entry "--clear" ["Clear all fields"] ++
  ["", "filename specs:"] ++
  entry "--extract SPEC" ["Set fields from the filename using SPEC"] ++
  entry "--rename SPEC" ["Rename files using SPEC, replacing shell-unsafe", "characters"] ++
  entry "--rename-fs SPEC" ["Like --rename, but only replace filesystem-unsafe", "characters"] ++
  ["", "behavior:"] ++
  entry "--dry-run" ["Show what would be saved and renamed without changing", "anything"] ++
  entry "--recursive" ["Recurse into subdirectories of directory inputs"] ++
  entry "--logging \x7blow,high\x7d" ["Logging level: low (default) or high (verbose)"] ++
  ["",
    "Examples:",
    "  # List populated fields",
    "  tagsmith *.flac",
    "",
    "  # Set artist and album, clear the comment",
    "  tagsmith -r \"Portishead\" -l \"Dummy\" --no-comment *.flac",
    "",
    "  # Fill track and title in from \"03 - Glory Box.flac\"",
    "  tagsmith --extract \"%n - %T\" *.flac",
    "",
    "  # Rename to \"03-glory_box.flac\"",
    "  tagsmith --rename \"%n-%_t\" *.flac",
    "",
    "Spec placeholders (lowercase letter downcases the value):"] ++
  Field.all.map placeholderLine ++
  ["",
    "  %_t, %-t, %.t ...  use the character after % as substitution character",
    "                     for unsafe characters when renaming (default: remove)",
    "",
    "Text outside placeholders is copied as-is. --rename treats whitespace and",
    "shell metacharacters as unsafe, --rename-fs only whitespace and characters",
    "filesystems reject."]

def text : String :=
  block lines

def version : String :=
  block ["tagsmith 1.0.0"]

/-- What is written about a command line that cannot be followed. -/
def complaint (message : String) : String :=
  usage ++ block ["tagsmith: error: " ++ message]

end LinerNotes.Help
