import LiteOsKernel.Common
import Mathlib.Logic.Basic

/-! The normal form of a path, after fullpath.c with VFS_USING_WORKDIR. A string is the list of its bytes in front of the final 0. The
arguments are no NULL pointers but for the directory, and what is stored on an error is left out. -/
namespace LiteOsKernel.Fs

abbrev Path := List Char

def PATH_MAX : Nat := 256
def NAME_MAX : Nat := 255

inductive PathErrno where
  | EINVAL
  | ENAMETOOLONG
  | ENOMEM
  deriving DecidableEq

/-- TEMP_PATH_MAX, which depends on LOSCFG_SHELL, the working directory of the process, and whether there is memory for the path. -/
structure PathEnv where
  tempPathMax : Nat
  workdir : Path
  mem : Bool

/-- A fault is an access in front of the buffer of the path. -/
inductive NormalizeRet where
  | error (errno : PathErrno)
  | fault
  | stored (pathname : Path)
  deriving DecidableEq

def vfsStrnlen (str : Path) (maxlen : Nat) : Nat := min str.length maxlen

/-- The loop of str_path, from src on; slash says that the byte in front of it was a slash. -/
def strPathLoop (slash : Bool) : Path → Path
  | [] => []
  | c :: src => if slash = true ∧ c = '/' then strPathLoop true src else c :: strPathLoop (c = '/') src

def strPath (path : Path) : Path := strPathLoop false path

/-- The bytes in front of dest, the last one first, when dest goes back behind the slash of the directory. There is none in front of the
buffer. -/
def destBack : Path → Option Path
  | [] => none
  | [c] => some ([c].dropWhile fun c => c ≠ '/')
  | _ :: dest => some (dest.dropWhile fun c => c ≠ '/')

/-- The loop of str_normalize_path, on the bytes in front of dest, the last one first, and those from src on. In a name that starts with two
dots the bytes up to the next slash are copied. -/
def strNormalizeLoop : Bool → Path → Path → Option Path
  | _, dest, [] => some dest
  | true, dest, c :: src => strNormalizeLoop (c ≠ '/') (c :: dest) src
  | false, dest, '.' :: '/' :: src => strNormalizeLoop false dest src
  | false, dest, ['.','.'] => destBack dest
  | false, dest, '.' :: '.' :: '/' :: src => (destBack dest).bind fun dest => strNormalizeLoop false dest src
  | false, dest, '.' :: '.' :: src => strNormalizeLoop true ('.' :: dest) ('.' :: src)
  | false, dest, c :: src => strNormalizeLoop false (c :: dest) src

example : strNormalizeLoop false [] ['/','a','.','b','.','/','c'] = some ['c','b','.','a','/'] := by simp [strNormalizeLoop]

/-- On the bytes of the path, the last one first. -/
def strRemovePathEndSlash : Path → Option Path
  | [] | ['.'] => none
  | '.' :: '/' :: dest => some (if dest = [] then ['/'] else dest)
  | '/' :: dest => some (if dest = [] then ['/'] else dest)
  | dest => some dest

def strNormalizePath (fullpath : Path) : Option Path :=
  ((strNormalizeLoop false [] fullpath).bind strRemovePathEndSlash).map List.reverse

/-- Of the texts that are measured, from the end back to a slash or to the second byte, the longest. -/
def lastName (filename : Path) : Path := ((filename.drop 1).reverse.takeWhile fun c => c ≠ '/').reverse

def vfsNormalizePathParameCheck (filename : Path) : Except PathErrno Nat :=
  let namelen := vfsStrnlen filename PATH_MAX
  if namelen = 0 then .error .EINVAL
  else if PATH_MAX ≤ namelen then .error .ENAMETOOLONG
  else if NAME_MAX < (lastName filename).length then .error .ENAMETOOLONG
  else .ok namelen

/-- filename += 2 on a dot and a slash. -/
def skipDotSlash : Path → Path
  | '.' :: '/' :: filename => filename
  | filename => filename

def vfsNotAbsolutePath (env : PathEnv) (directory filename : Path) : Except PathErrno Path :=
  if env.mem = false then .error .ENOMEM else .ok (directory ++ '/' :: skipDotSlash filename)

def vfsNormalizeFullpath (env : PathEnv) (directory filename : Path) : Except PathErrno Path :=
  if filename.head? ≠ some '/' then vfsNotAbsolutePath env directory filename
  else if env.mem = false then .error .ENOMEM
  else if filename[1]? = some '/' then .error .EINVAL
  else .ok filename

def vfsNormalizePath (env : PathEnv) (directory : Option Path) (filename : Path) : NormalizeRet :=
  match vfsNormalizePathParameCheck filename with
  | .error e => .error e
  | .ok namelen =>
    let directory := directory.getD env.workdir
    if filename.head? ≠ some '/' ∧ env.tempPathMax < directory.length + namelen + 2 then .error .ENAMETOOLONG
    else match vfsNormalizeFullpath env directory filename with
      | .error e => .error e
      | .ok fullpath => match strNormalizePath (strPath fullpath) with
        | none => .fault
        | some fullpath => if PATH_MAX ≤ fullpath.length then .error .ENAMETOOLONG else .stored fullpath

end LiteOsKernel.Fs
