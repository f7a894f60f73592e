import Boli.Target

/-!
The eight target languages: JavaScript, C, C++, Go, Rust, Kotlin, Java and Python.

The order is the one in which they are registered, with the default target first. C is the only
language without concatenation of texts, and Python the only one with colon blocks.
-/

set_option autoImplicit false

namespace Boli.Target

/-- One print call for both kinds of value. -/
def printBoth (template : Template) : Dictionary ValueKind Template :=
  [(.number, template), (.string, template)]

/-- A declaration that names its static type. -/
def typedDeclaration : Template := [.named "type", " ", .named "name", " = ", .named "value"]

/-- A function call around one value. -/
def callOn (function hole : Piece) : Template := [function, "(", hole, ")"]

def javaScript : Target where
  name := "js"
  aliases := ["javascript"]
  opening := ["// Generated JavaScript code", ""]
  declaration := ["let ", .named "name", " = ", .named "value"]
  printTemplates := printBoth (callOn "console.log" (.named "value"))
  operators := [("/", ["Math.trunc(", .named "left", " / ", .named "right", ")"])]

def c : Target where
  name := "c"
  opening := ["#include <stdio.h>", "", "int main() \x7b"]
  closing := ["  return 0;", "\x7d"]
  bodyLevel := 1
  declaration := typedDeclaration
  typeNames := [(.string, "char*"), (.number, "int")]
  printTemplates :=
    [(.number, ["printf(\"%d\\n\", ", .named "value", ")"]),
      (.string, ["printf(\"%s\\n\", ", .named "value", ")"])]
  concatenation := none

def cpp : Target where
  name := "cpp"
  aliases := ["c++", "cxx"]
  opening :=
    ["#include <iostream>", "#include <string>", "using namespace std;", "", "int main() \x7b"]
  closing := ["  return 0;", "\x7d"]
  bodyLevel := 1
  declaration := typedDeclaration
  typeNames := [(.string, "string"), (.number, "int")]
  printTemplates := printBoth ["cout << ", .named "value", " << endl"]
  concatenation := some ["string(", .named "left", ") + ", .named "right"]
  stringify := callOn "to_string" .next

def go : Target where
  name := "go"
  aliases := ["golang"]
  opening := ["package main", "", "import \"fmt\"", "", "func main() \x7b"]
  closing := ["\x7d"]
  bodyLevel := 1
  terminator := ""
  conditionFormat := [.next]
  whileKeyword := "for"
  declaration := [.named "name", " := ", .named "value"]
  printTemplates := printBoth (callOn "fmt.Println" (.named "value"))
  stringify := callOn "fmt.Sprint" .next

def rust : Target where
  name := "rs"
  aliases := ["rust"]
  opening := ["fn main() \x7b"]
  closing := ["\x7d"]
  bodyLevel := 1
  conditionFormat := [.next]
  declaration := ["let mut ", .named "name", " = ", .named "value"]
  printTemplates := printBoth ["println!(\"\x7b\x7d\", ", .named "value", ")"]
  stringTemplate := ["String::from(\"", .next, "\")"]
  concatenation :=
    some ["format!(\"\x7b\x7d\x7b\x7d\", ", .named "left", ", ", .named "right", ")"]

def kotlin : Target where
  name := "kt"
  aliases := ["kotlin"]
  opening := ["fun main() \x7b"]
  closing := ["\x7d"]
  bodyLevel := 1
  indentUnit := "    "
  terminator := ""
  declaration := ["var ", .named "name", " = ", .named "value"]
  printTemplates := printBoth (callOn "println" (.named "value"))
  stringify := [.next, ".toString()"]

def java : Target where
  name := "java"
  opening := ["public class Main \x7b", "    public static void main(String[] args) \x7b"]
  closing := ["    \x7d", "\x7d"]
  bodyLevel := 2
  indentUnit := "    "
  declaration := typedDeclaration
  typeNames := [(.string, "String"), (.number, "int")]
  printTemplates := printBoth (callOn "System.out.println" (.named "value"))

def python : Target where
  name := "py"
  aliases := ["python"]
  opening := ["def main():"]
  closing := ["", "if __name__ == \"__main__\":", "    main()"]
  bodyLevel := 1
  indentUnit := "    "
  terminator := ""
  blockStyle := .colon
  conditionFormat := [.next]
  elseIfKeyword := "elif"
  emptyBlock := some "pass"
  printTemplates := printBoth (callOn "print" (.named "value"))
  operators := [("/", ["int(", .named "left", " / ", .named "right", ")"])]
  stringify := callOn "str" .next
  commentMark := "#"

/-- All targets in the order of registration. -/
def catalogue : List Target := [javaScript, c, cpp, go, rust, kotlin, java, python]

end Boli.Target
