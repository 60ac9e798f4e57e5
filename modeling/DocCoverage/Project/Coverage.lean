import DocCoverage.Project.Check
import DocCoverage.Settings.Store
/-!
# Projects — checking a directory

The whole way from a directory to its report: load the settings, which
creates the settings file if it is missing, and check the project with
them.
-/

namespace DocCoverage

namespace Project

/-- Check the documentation below a root, with the settings of a file or,
if none is named, of the settings file in the root. -/
def coverage (files : FileSystem) (root : Path) (settingsFile : Option Path) :
    Report × FileSystem :=
  let path := settingsFile.getD (root.child SettingsStore.fileName)
  let (store, files) := SettingsStore.load files path
  ((atRoot files root store.build).check, files)

end Project

end DocCoverage
