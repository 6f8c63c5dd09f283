import PageTemplate.Path

namespace PageTemplate

inductive FileFault
  | notFound
  | exists
  | notADirectory
  | isADirectory
  | nameTooLong
  /-- A path with a zero byte in it. -/
  | zeroInPath
  /-- Contents that are not text. -/
  | notText
  /-- A directory that cannot be walked. -/
  | walk (path : Path) (fault : FileFault)
  deriving DecidableEq

namespace FileFault

def message : FileFault → String
  | .notFound => "No such file or directory (os error 2)"
  | .exists => "File exists (os error 17)"
  | .notADirectory => "Not a directory (os error 20)"
  | .isADirectory => "Is a directory (os error 21)"
  | .nameTooLong => "File name too long (os error 36)"
  | .zeroInPath => "file name contained an unexpected NUL byte"
  | .notText => "stream did not contain valid UTF-8"
  | .walk path fault => "IO error for operation on " ++ path.shown ++ ": " ++ fault.message

end FileFault
end PageTemplate
