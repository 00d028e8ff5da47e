/-! The definitions that every complete output starts with: the built-in
functions, the event registry, and the triggers of launch and key presses. -/
namespace EventScript.Preamble

def lines : List String :=
  [ "// DPLA runtime ------------------------------------------------------------",
    "function print(value) \x7b",
    "  console.log(value);",
    "\x7d",
    "function command_print(value) \x7b",
    "  console.log(value);",
    "\x7d",
    "function lang(language) \x7b",
    "  window.__lang__ = language;",
    "\x7d",
    "function input(message) \x7b",
    "  return window.prompt(message);",
    "\x7d",
    "function int(value) \x7b",
    "  var result = Number(value);",
    "  if (!Number.isInteger(result)) throw new Error(\"Cannot convert \" + value + \" to integer\");",
    "  return result;",
    "\x7d",
    "function range(end) \x7b",
    "  return Array.from(Array(end).keys());",
    "\x7d",
    "var __listeners__ = \x7b\x7d;",
    "function __register__(type, callback) \x7b",
    "  if (!(__listeners__[type] instanceof Array)) __listeners__[type] = [];",
    "  __listeners__[type].push(callback);",
    "\x7d",
    "function __dispatch__(type) \x7b",
    "  if (__listeners__[type] instanceof Array) \x7b",
    "    __listeners__[type].forEach(function(listener) \x7b",
    "      listener();",
    "    \x7d);",
    "  \x7d",
    "\x7d",
    "window.addEventListener(\"load\", function() \x7b",
    "  __dispatch__(\"onLaunch\");",
    "\x7d);",
    "window.addEventListener(\"keydown\", function(e) \x7b",
    "  __dispatch__(\"keypress_\" + e.key);",
    "\x7d);",
    "// ------------------------------------------------------------ DPLA runtime" ]

def text : String := String.join (lines.map (· ++ "\n"))

end EventScript.Preamble
