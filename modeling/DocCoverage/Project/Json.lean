import DocCoverage.Project.CodeFile
/-!
# Projects — source files as JSON
-/

namespace DocCoverage

namespace CodeFile

/-- The description of a source file as JSON. -/
def toJson (file : CodeFile) : Json :=
  .obj [
    ("path", .str file.path.text),
    ("name", .str file.name),
    ("file_type", .str file.fileType.key),
    ("language", .str file.language.key),
    ("size_lines", .nat file.lines),
    ("complexity_score", .nat file.signals.complexity),
    ("exported_functions", .strings file.signals.functions),
    ("exported_classes", .strings file.signals.classes),
    ("exported_types", .strings file.signals.types),
    ("exported_constants", .strings file.signals.constants),
    ("has_tests", .bool file.hasTests),
    ("is_public_api", .bool file.isPublic),
    ("documentation_required", .bool file.needsDocumentation),
    ("priority", .str file.priority.key)]

end CodeFile

end DocCoverage
