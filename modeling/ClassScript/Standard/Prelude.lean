import ClassScript.Text.Glyph

/-!
The prelude: declarations of the standard classes, whose methods the host implements. Every program
is linked behind it.
-/

namespace ClassScript.Prelude

/-- The module path of the prelude. -/
def path : String := "std/prelude.clasp"

/-- The lines of the prelude. -/
def lines : List String := [
  "// Declarations of the host-backed standard classes. Method bodies live in",
  "// Go; see the natives package.",
  "",
  "@native",
  "class String \x7b",
  "    public length(): number;",
  "    public charAt(index: number): string;",
  "    public indexOf(needle: string): number;",
  "    public substring(start: number, end: number = -1): string;",
  "    public toUpperCase(): string;",
  "    public toLowerCase(): string;",
  "    public split(separator: string): Array<string>;",
  "    public trim(): string;",
  "    public concat(other: string): string;",
  "    public startsWith(prefix: string): boolean;",
  "    public equals(other: string): boolean;",
  "\x7d",
  "",
  "@native",
  "class Number \x7b",
  "    public toString(): string;",
  "    public toFixed(digits: number): string;",
  "    public floor(): number;",
  "    public ceil(): number;",
  "    public round(): number;",
  "    public abs(): number;",
  "    public static parse(text: string): number;",
  "    public static max(a: number, b: number): number;",
  "    public static min(a: number, b: number): number;",
  "\x7d",
  "",
  "@native",
  "class Boolean \x7b",
  "    public toString(): string;",
  "\x7d",
  "",
  "interface Iterator<T> \x7b",
  "    rewind(): void;",
  "    hasNext(): boolean;",
  "    current(): T;",
  "    next(): void;",
  "\x7d",
  "",
  "interface Iterable<T> \x7b",
  "    iterator(): Iterator<T>;",
  "\x7d",
  "",
  "@native",
  "class Array<T> implements Iterable<T> \x7b",
  "    public constructor();",
  "    public push(value: T): void;",
  "    public pop(): T?;",
  "    public get(index: number): T;",
  "    public set(index: number, value: T): void;",
  "    public length(): number;",
  "    public iterator(): ArrayIterator<T>;",
  "    public indexOf(value: T): number;",
  "    public contains(value: T): boolean;",
  "    public join(separator: string = \",\"): string;",
  "    public map<U>(f: (T) -> U): Array<U>;",
  "    public filter(f: (T) -> boolean): Array<T>;",
  "    public forEach(f: (T) -> void): void;",
  "\x7d",
  "",
  "@native",
  "class ArrayIterator<T> implements Iterator<T> \x7b",
  "    public rewind(): void;",
  "    public hasNext(): boolean;",
  "    public current(): T;",
  "    public next(): void;",
  "\x7d",
  "",
  "@native",
  "class System \x7b",
  "    public static print(value: mixed): void;",
  "    public static println(value: mixed): void;",
  "    public static time(): number;",
  "\x7d",
  "",
  "@native",
  "class Assert \x7b",
  "    public static equals(expected: mixed, actual: mixed): void;",
  "    public static isTrue(condition: boolean): void;",
  "    public static isNull(value: mixed): void;",
  "    public static fail(message: string): void;",
  "\x7d",
  "",
  "@native",
  "class VNode \x7b",
  "    public tag(): string;",
  "    public childCount(): number;",
  "    public render(): string;",
  "\x7d"]

/-- The text of the prelude. -/
def text : String := String.join (lines.map (· ++ "\n"))

/-- The text of the prelude as a source, line by line. -/
def source : Text := lines.flatMap fun line => Text.ofString line ++ [.char '\n']

theorem source_eq : source = Text.ofString text := by
  simp [source, text, Text.ofString, String.toList_join, List.flatMap_map, List.map_flatMap]

end ClassScript.Prelude
